import Mathlib.Data.List.Basic

/-!
# ZeroCopyInputStream over a buffer sequence

The protobuf input stream the overlay hands to a message parser.  A buffer sequence is a
list of chunks; the stream keeps the index of the chunk `first_` points at and the bytes
`pos_` that `Next` will return, so that `first_ == last_` reads `first = buffers.length`.

What a stream denotes is the bytes it has left, `remaining`.  `Next`, `Skip` and `BackUp`
are each specified by what they do to it, and a reader that calls `Next` until it returns
false (as `ParseFromZeroCopyStream` does) gets exactly `remaining`: `readAll_eq_remaining`.
So after `Skip k` a parser is given every byte of the sequence past the first `k`, however
the sequence is cut into chunks (`readAll_skip_new`).
-/

namespace RadardFormal.Overlay

/-- A buffer sequence, as the chunks it is made of. -/
abbrev Buffers := List (List UInt8)

/-- `boost::asio::buffer_size` of a buffer sequence. -/
def bufferSize (buffers : Buffers) : Nat := buffers.flatten.length

/-- `(it != last_) ? *it : const_buffer(nullptr, 0)`. -/
def chunkAt (buffers : Buffers) (index : Nat) : List UInt8 :=
  if index ≠ buffers.length then buffers.getD index [] else []

theorem flatten_drop_eq_cons {buffers : Buffers} {index : Nat} (within : index < buffers.length) :
    (buffers.drop index).flatten = chunkAt buffers index ++ (buffers.drop (index + 1)).flatten := by
  rw [List.drop_eq_getElem_cons within, List.flatten_cons, chunkAt, if_pos (by omega),
    ← List.getElem_eq_getD]

structure ZeroCopyInputStream where
  buffers : Buffers
  count : Int
  first : Nat
  pos : List UInt8
  first_le : first ≤ buffers.length

namespace ZeroCopyInputStream

/-- The constructor: `first_` at the first chunk and `pos_` all of it. -/
def new (buffers : Buffers) : ZeroCopyInputStream :=
  ⟨buffers, 0, 0, chunkAt buffers 0, Nat.zero_le _⟩

/-- `Next`: the bytes `pos_`, and whether there were any to return; `first_` moves on. -/
def next (s : ZeroCopyInputStream) : (List UInt8 × Bool) × ZeroCopyInputStream :=
  if at_end : s.first = s.buffers.length then ((s.pos, false), s)
  else
    ((s.pos, true),
      { s with count := s.count + s.pos.length, first := s.first + 1,
               pos := chunkAt s.buffers (s.first + 1), first_le := by have := s.first_le; omega })

/-- `BackUp`: step `first_` back and return the last `count` bytes of its chunk. -/
def backUp (s : ZeroCopyInputStream) (count : Nat) : ZeroCopyInputStream :=
  let chunk := s.buffers.getD (s.first - 1) []
  { s with first := s.first - 1, pos := chunk.drop (chunk.length - count), count := s.count - count,
           first_le := by have := s.first_le; omega }

/-- The loop of `Skip`, run while `first_ != last_`. -/
def skipLoop (s : ZeroCopyInputStream) (count : Int) (within : s.first < s.buffers.length) :
    Bool × ZeroCopyInputStream :=
  if 0 < count then
    if count < s.pos.length then
      (true, { s with pos := s.pos.drop count.toNat, count := s.count + count })
    else if last : s.first + 1 = s.buffers.length then
      (false, { s with count := s.count + s.pos.length, first := s.first + 1, first_le := by omega })
    else
      skipLoop
        { s with count := s.count + s.pos.length, first := s.first + 1,
                 pos := s.buffers.getD (s.first + 1) [], first_le := by omega }
        (count - s.pos.length) (by simp only; omega)
  else (true, s)
termination_by s.buffers.length - s.first

/-- `Skip`. -/
def skip (s : ZeroCopyInputStream) (count : Int) : Bool × ZeroCopyInputStream :=
  if at_end : s.first = s.buffers.length then (false, s)
  else skipLoop s count (by have := s.first_le; omega)

/-- The bytes the stream has left. -/
def remaining (s : ZeroCopyInputStream) : List UInt8 :=
  if s.first = s.buffers.length then [] else s.pos ++ (s.buffers.drop (s.first + 1)).flatten

theorem remaining_of_lt {s : ZeroCopyInputStream} (within : s.first < s.buffers.length) :
    s.remaining = s.pos ++ (s.buffers.drop (s.first + 1)).flatten := by
  rw [remaining, if_neg (by omega)]

theorem remaining_of_eq {s : ZeroCopyInputStream} (at_end : s.first = s.buffers.length) :
    s.remaining = [] := by
  rw [remaining, if_pos at_end]

/-- A stream at the start of a chunk has left every byte from that chunk on. -/
theorem remaining_of_fresh {s : ZeroCopyInputStream} (fresh : s.pos = chunkAt s.buffers s.first) :
    s.remaining = (s.buffers.drop s.first).flatten := by
  by_cases at_end : s.first = s.buffers.length
  · rw [remaining_of_eq at_end, at_end, List.drop_length, List.flatten_nil]
  · have within : s.first < s.buffers.length := by have := s.first_le; omega
    rw [remaining_of_lt within, flatten_drop_eq_cons within, fresh]

theorem remaining_new (buffers : Buffers) : (new buffers).remaining = buffers.flatten :=
  remaining_of_fresh rfl

/-- `Next` at the end returns false and changes nothing. -/
theorem next_of_eq {s : ZeroCopyInputStream} (at_end : s.first = s.buffers.length) :
    s.next = ((s.pos, false), s) := by
  rw [next, dif_pos at_end]

/-- `Next` before the end returns `pos_`, where what the stream has left begins, and moves to
the start of the next chunk. -/
theorem next_of_lt {s : ZeroCopyInputStream} (within : s.first < s.buffers.length) :
    s.next.1 = (s.pos, true) ∧ s.remaining = s.pos ++ s.next.2.remaining ∧
      s.next.2.buffers = s.buffers ∧ s.next.2.first = s.first + 1 := by
  have step : s.next = ((s.pos, true),
      { s with count := s.count + s.pos.length, first := s.first + 1,
               pos := chunkAt s.buffers (s.first + 1), first_le := within }) := by
    rw [next, dif_neg (by omega)]
  rw [step, remaining_of_lt within, remaining_of_fresh rfl]
  exact ⟨rfl, rfl, rfl, rfl⟩

theorem next_decreases {s after : ZeroCopyInputStream} {data : List UInt8}
    (step : s.next = ((data, true), after)) :
    after.buffers.length - after.first < s.buffers.length - s.first := by
  by_cases at_end : s.first = s.buffers.length
  · rw [next_of_eq at_end] at step
    cases step
  · have within : s.first < s.buffers.length := by have := s.first_le; omega
    obtain ⟨-, -, same, moved⟩ := next_of_lt within
    rw [step] at same moved
    rw [same, moved]
    omega

theorem remaining_backUp (s : ZeroCopyInputStream) (count : Nat) (positive : 0 < s.first) :
    (s.backUp count).remaining =
      (s.buffers.getD (s.first - 1) []).drop ((s.buffers.getD (s.first - 1) []).length - count) ++
        (s.buffers.drop s.first).flatten := by
  have := s.first_le
  dsimp only [backUp, remaining]
  rw [if_neg (by omega), Nat.sub_add_cancel positive]

/-- `BackUp` right after a `Next` gives back the last `count` bytes that `Next` returned, when
`pos_` was the end of its chunk (as the constructor, `Next` and `Skip` leave it). -/
theorem remaining_backUp_next {s : ZeroCopyInputStream} (within : s.first < s.buffers.length)
    (suffix : s.pos <:+ s.buffers.getD s.first []) {count : Nat} (le : count ≤ s.pos.length) :
    (s.next.2.backUp count).remaining = s.pos.drop (s.pos.length - count) ++ s.next.2.remaining := by
  obtain ⟨-, split, same, moved⟩ := next_of_lt within
  obtain ⟨front, whole⟩ := suffix
  have back : (s.buffers.getD s.first []).drop ((s.buffers.getD s.first []).length - count) =
      s.pos.drop (s.pos.length - count) := by
    rw [← whole, List.length_append, List.drop_append, List.drop_eq_nil_of_le (by omega),
      List.nil_append]
    congr 1
    omega
  have after : s.next.2.remaining = (s.buffers.drop (s.first + 1)).flatten := by
    rw [remaining_of_lt within] at split
    exact (List.append_cancel_left split).symm
  rw [remaining_backUp _ _ (by omega), same, moved, Nat.add_sub_cancel, back, after]

/-- Read with `Next` until it returns false, as `ParseFromZeroCopyStream` does. -/
def readAll (s : ZeroCopyInputStream) : List UInt8 :=
  match _step : s.next with
  | ((data, true), after) => data ++ readAll after
  | ((_, false), _) => []
termination_by s.buffers.length - s.first
decreasing_by exact next_decreases _step

/-- A reader that drains the stream gets exactly the bytes it has left. -/
theorem readAll_eq_remaining (s : ZeroCopyInputStream) : s.readAll = s.remaining := by
  induction s using readAll.induct with
  | case1 s data after step ih =>
    rw [readAll, step]
    simp only
    have within : s.first < s.buffers.length := by
      have := s.first_le
      by_contra at_end
      rw [next_of_eq (by omega)] at step
      cases step
    obtain ⟨returned, split, -⟩ := next_of_lt within
    rw [step] at returned split
    cases returned
    rw [ih, split]
  | case2 s data after step =>
    rw [readAll, step]
    simp only
    have at_end : s.first = s.buffers.length := by
      by_contra within
      have := (next_of_lt (show s.first < s.buffers.length by have := s.first_le; omega)).1
      rw [step] at this
      cases this
    rw [remaining_of_eq at_end]

/-- Each turn of the `Skip` loop drops the bytes it passes from what the stream has left. -/
theorem remaining_skipLoop (s : ZeroCopyInputStream) (count : Int)
    (within : s.first < s.buffers.length) :
    (s.skipLoop count within).2.remaining = s.remaining.drop count.toNat := by
  induction s, count, within using skipLoop.induct with
  | case1 s count within positive short =>
    rw [skipLoop, if_pos positive, if_pos short, remaining_of_lt within]
    dsimp only [remaining]
    rw [if_neg (by omega), List.drop_append_of_le_length (by omega)]
  | case2 s count within positive long last =>
    rw [skipLoop, if_pos positive, if_neg long, dif_pos last, remaining_of_lt within]
    dsimp only [remaining]
    rw [if_pos last, last, List.drop_length, List.flatten_nil, List.append_nil,
      List.drop_eq_nil_of_le (by omega)]
  | case3 s count within positive long last ih =>
    have passed : (count - (s.pos.length : Int)).toNat = count.toNat - s.pos.length := by omega
    rw [skipLoop, if_pos positive, if_neg long, dif_neg last, ih, remaining_of_fresh, passed,
      remaining_of_lt within, List.drop_append,
      List.drop_eq_nil_of_le (show s.pos.length ≤ count.toNat by omega), List.nil_append]
    dsimp only
    rw [chunkAt, if_pos last]
  | case4 s count within nonpositive =>
    rw [skipLoop, if_neg nonpositive, show count.toNat = 0 by omega, List.drop_zero]

/-- `Skip` drops `count` bytes from what the stream has left, or all of them. -/
theorem remaining_skip (s : ZeroCopyInputStream) (count : Int) :
    (s.skip count).2.remaining = s.remaining.drop count.toNat := by
  unfold skip
  split
  · rename_i at_end
    rw [remaining_of_eq at_end, List.drop_nil]
  · exact remaining_skipLoop s count _

/-- After `Skip count` on a new stream a parser that reads to the end is given every byte of
the sequence past the first `count`, however the sequence is cut into chunks. -/
theorem readAll_skip_new (buffers : Buffers) (count : Int) :
    ((new buffers).skip count).2.readAll = buffers.flatten.drop count.toNat := by
  rw [readAll_eq_remaining, remaining_skip, remaining_new]

end ZeroCopyInputStream

end RadardFormal.Overlay
