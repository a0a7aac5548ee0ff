import RadardFormal.Protocol.STAmountWire

/-!
# Path sets on the wire

`STPathSet::add` writes each element of each path as its type byte followed by the 160-bit
fields the type names, a `typeBoundary` byte between two paths and a `typeNone` byte at the end.
`STPathSet (SerialIter&)` reads the bytes back and rebuilds each element with the constructor
that takes the three identifiers; a field the type byte does not name is not written and comes
back as zero.

Every non-empty list of non-empty paths whose types name only the three fields reads back
element by element (`fromSerialIter_add`), and an element whose unnamed fields are zero keeps its
identifiers (`ids_readBack`).  The constructor from three identifiers leaves a native account or
issuer out of the type, and radard's `isNative` holds of the VBC account `0xFF` as well as of
zero, so an element through the VBC account is written without it and read back through account
zero (`path_through_vbc_account_reads_zero`).
-/

namespace RadardFormal.Protocol

open RadardFormal.Support

/-- `STPathElement`: its type, its three identifiers and whether it stands for offers.  The
cached `hash_value_` is a function of the identifiers and is left out. -/
structure STPathElement where
  nodeType : Nat
  accountID : AccountID
  currency : Currency
  issuerID : AccountID
  isOffer : Bool
  deriving DecidableEq, Repr

/-- `STPath`: the elements of one path. -/
abbrev STPath := List STPathElement

namespace STPathElement

/-- `typeNone`: the end of the path set. -/
def typeNone : Nat := 0x00

/-- `typeAccount`: an account follows. -/
def typeAccount : Nat := 0x01

/-- `typeCurrency`: a currency follows. -/
def typeCurrency : Nat := 0x10

/-- `typeIssuer`: an issuer follows. -/
def typeIssuer : Nat := 0x20

/-- `typeBoundary`: the end of one path. -/
def typeBoundary : Nat := 0xFF

/-- `typeAll`: the three field bits. -/
def typeAll : Nat := typeAccount ||| typeCurrency ||| typeIssuer

/-- `iType & ~typeAll` of a byte: its bits outside the three field bits. -/
def outsideAll (iType : Nat) : Nat := iType &&& (0xFF ^^^ typeAll)

/-- `STPathElement (account, currency, issuer, forceCurrency)`: the account is named unless it is
native, the currency when forced or not native, the issuer unless it is native. -/
def ofIds (account : AccountID) (currency : Currency) (issuer : AccountID) (forceCurrency : Bool) :
    STPathElement :=
  let isOffer := isNativeAccount account
  { nodeType := (if !isOffer then typeAccount else typeNone) |||
      (if forceCurrency || !currency.isNative then typeCurrency else typeNone) |||
      (if !isNativeAccount issuer then typeIssuer else typeNone)
    accountID := account
    currency := currency
    issuerID := issuer
    isOffer := isOffer }

/-- `STPathElement (optional account, optional currency, optional issuer)`: each field given is
named; one not given keeps the zero of its type. -/
def ofOptionals (account : Option AccountID) (currency : Option Currency) (issuer : Option AccountID) :
    STPathElement :=
  { nodeType := (if account.isSome then typeAccount else typeNone) |||
      (if currency.isSome then typeCurrency else typeNone) ||| (if issuer.isSome then typeIssuer else typeNone)
    accountID := account.getD AccountID.zero
    currency := currency.getD Currency.xrpCurrency
    issuerID := issuer.getD AccountID.zero
    isOffer := account.isNone }

/-- `STPathElement (uType, account, currency, issuer)`: the type as given. -/
def ofType (uType : Nat) (account : AccountID) (currency : Currency) (issuer : AccountID) : STPathElement :=
  ⟨uType, account, currency, issuer, isNativeAccount account⟩

/-- The identifiers an element names, which is what two path sets are compared on. -/
def ids (element : STPathElement) : AccountID × Currency × AccountID :=
  (element.accountID, element.currency, element.issuerID)

@[simp] theorem ids_ofIds (account : AccountID) (currency : Currency) (issuer : AccountID) (forceCurrency : Bool) :
    (ofIds account currency issuer forceCurrency).ids = (account, currency, issuer) := rfl

/-- The type naming the fields whose flags are set, as the constructors build it. -/
def typeOf (account currency issuer : Bool) : Nat :=
  (if account then typeAccount else typeNone) ||| (if currency then typeCurrency else typeNone) |||
    (if issuer then typeIssuer else typeNone)

theorem nodeType_ofIds (account : AccountID) (currency : Currency) (issuer : AccountID) (forceCurrency : Bool) :
    (ofIds account currency issuer forceCurrency).nodeType =
      typeOf (!isNativeAccount account) (forceCurrency || !currency.isNative) (!isNativeAccount issuer) := rfl

theorem nodeType_ofOptionals (account : Option AccountID) (currency : Option Currency) (issuer : Option AccountID) :
    (ofOptionals account currency issuer).nodeType = typeOf account.isSome currency.isSome issuer.isSome := rfl

theorem typeOf_and_typeAccount (account currency issuer : Bool) :
    typeOf account currency issuer &&& typeAccount = 0 ↔ account = false := by
  cases account <;> cases currency <;> cases issuer <;> decide

theorem typeOf_and_typeCurrency (account currency issuer : Bool) :
    typeOf account currency issuer &&& typeCurrency = 0 ↔ currency = false := by
  cases account <;> cases currency <;> cases issuer <;> decide

theorem typeOf_and_typeIssuer (account currency issuer : Bool) :
    typeOf account currency issuer &&& typeIssuer = 0 ↔ issuer = false := by
  cases account <;> cases currency <;> cases issuer <;> decide

end STPathElement

namespace STPathSet

open STPathElement

/-! ## `STPathSet::add` -/

/-- The bytes `STPathSet::add` writes for one element: its type, then the fields it names. -/
def addElement (s : Serializer) (element : STPathElement) : Serializer :=
  let iType := element.nodeType
  let s := s.add8 iType
  let s := if iType &&& typeAccount ≠ 0 then s.add160Account element.accountID else s
  let s := if iType &&& typeCurrency ≠ 0 then s.add160Currency element.currency else s
  if iType &&& typeIssuer ≠ 0 then s.add160Account element.issuerID else s

/-- The loop over the paths, with `first` cleared after the first one. -/
def addPaths : Serializer → Bool → List STPath → Serializer
  | s, _, [] => s
  | s, first, path :: rest => addPaths (path.foldl addElement (if first then s else s.add8 typeBoundary)) false rest

/-- `STPathSet::add`. -/
def add (value : List STPath) (s : Serializer) : Serializer := (addPaths s true value).add8 typeNone

/-! ## `STPathSet (SerialIter&)` -/

/-- `if (named) field.copyFrom (sit.get160 ())`: the field read when it is named, and the zero of
its type otherwise. -/
def readIf {α : Type} (named : Bool) (read : SerialRead α) (zero : α) : SerialRead α :=
  if named then read else pure zero

/-- The loop of `STPathSet (SerialIter&)`: `path` holds the elements read since the last
boundary and `value` the paths pushed.  Each turn reads a byte, so one more turn than there are
bytes left is never used up. -/
def readPaths : Nat → STPath → List STPath → SerialRead (List STPath)
  | 0, _, _ => throw "invalid SerialIter get8"
  | fuel + 1, path, value => do
    let iType ← SerialIter.get8
    if iType = typeNone ∨ iType = typeBoundary then
      if path = [] then throw "empty path"
      if iType = typeNone then return value ++ [path]
      readPaths fuel [] (value ++ [path])
    else if outsideAll iType ≠ 0 then throw "bad path element"
    else
      let hasAccount := iType &&& typeAccount != 0
      let hasCurrency := iType &&& typeCurrency != 0
      let hasIssuer := iType &&& typeIssuer != 0
      let account ← readIf hasAccount SerialIter.get160Account AccountID.zero
      let currency ← readIf hasCurrency SerialIter.get160Currency Currency.xrpCurrency
      let issuer ← readIf hasIssuer SerialIter.get160Account AccountID.zero
      readPaths fuel (path ++ [ofIds account currency issuer hasCurrency]) value

/-- `STPathSet (SerialIter&)`: the paths read and the bytes after them. -/
def fromSerialIter (sit : SerialIter) : Except String (List STPath × SerialIter) :=
  readPaths (sit.length + 1) [] [] sit

/-! ## Reading back what `add` writes -/

/-- A type the reader takes for an element: not `typeNone`, and no bit outside the three fields. -/
def WireType (iType : Nat) : Prop := iType ≠ typeNone ∧ iType ||| typeAll = typeAll

instance : DecidablePred WireType := fun _ => inferInstanceAs (Decidable (_ ∧ _))

/-- The element the reader builds from the bytes of `element`: the fields its type names, zeros
for the others, and the currency forced when it is named. -/
def readBack (element : STPathElement) : STPathElement :=
  ofIds (if element.nodeType &&& typeAccount ≠ 0 then element.accountID else AccountID.zero)
    (if element.nodeType &&& typeCurrency ≠ 0 then element.currency else Currency.xrpCurrency)
    (if element.nodeType &&& typeIssuer ≠ 0 then element.issuerID else AccountID.zero)
    (element.nodeType &&& typeCurrency != 0)

/-- A type the reader takes is one byte, neither of the two markers, with no bit outside the
three fields. -/
theorem WireType.bounds {iType : Nat} (wire : WireType iType) :
    iType < 256 ∧ iType ≠ typeNone ∧ iType ≠ typeBoundary ∧ outsideAll iType = 0 := by
  obtain ⟨notNone, within⟩ := wire
  have small : iType ≤ typeAll := within ▸ Nat.left_le_or
  -- `typeAll` is 0x31, so the types below it can be checked one by one
  have check : ∀ t ≤ typeAll, t ||| typeAll = typeAll → t < 256 ∧ t ≠ typeBoundary ∧ outsideAll t = 0 := by
    decide
  obtain ⟨byte, notBoundary, inside⟩ := check iType small within
  exact ⟨byte, notNone, notBoundary, inside⟩

theorem get8_cons (byte : Nat) (rest : SerialIter) :
    SerialIter.get8 (UInt8.ofNat byte :: rest) = .ok (byte % 256, rest) := by
  have read := SerialIter.getBigEndian_bigEndian 1 "invalid SerialIter get8" byte rest
  simpa [SerialIter.get8, Bytes.bigEndian] using read

/-- The bytes of an element: the type byte, then the named fields in order. -/
theorem addElement_eq (s : Serializer) (element : STPathElement) :
    addElement s element = s ++ UInt8.ofNat element.nodeType ::
      ((if element.nodeType &&& typeAccount ≠ 0 then Serializer.add160Account [] element.accountID else []) ++
        (if element.nodeType &&& typeCurrency ≠ 0 then Serializer.add160Currency [] element.currency else []) ++
        (if element.nodeType &&& typeIssuer ≠ 0 then Serializer.add160Account [] element.issuerID else [])) := by
  simp only [addElement, Serializer.add8, Serializer.add160Account, Serializer.add160Currency,
    Serializer.addBitString]
  split_ifs <;> simp

/-- The bytes of a path: those of its elements one after another. -/
theorem foldl_addElement (s : Serializer) (path : STPath) :
    path.foldl addElement s = s ++ path.flatMap (addElement []) := by
  induction path generalizing s with
  | nil => simp
  | cons element rest ih =>
    rw [List.foldl_cons, ih, List.flatMap_cons, addElement_eq s, addElement_eq [] element]
    simp

/-- The paths after the first: each one behind a boundary byte. -/
theorem addPaths_false (s : Serializer) (paths : List STPath) :
    addPaths s false paths = s ++ paths.flatMap fun path => UInt8.ofNat typeBoundary :: path.flatMap (addElement []) := by
  induction paths generalizing s with
  | nil => simp [addPaths]
  | cons path rest ih =>
    rw [addPaths, ih, foldl_addElement, List.flatMap_cons]
    simp [Serializer.add8]

theorem readIf_account (named : Bool) (account : AccountID) (rest : SerialIter) :
    readIf named SerialIter.get160Account AccountID.zero
        ((if named then Serializer.add160Account [] account else []) ++ rest) =
      .ok (if named then account else AccountID.zero, rest) := by
  cases named
  · rfl
  · exact SerialIter.get160Account_add160 account rest

theorem readIf_currency (named : Bool) (currency : Currency) (rest : SerialIter) :
    readIf named SerialIter.get160Currency Currency.xrpCurrency
        ((if named then Serializer.add160Currency [] currency else []) ++ rest) =
      .ok (if named then currency else Currency.xrpCurrency, rest) := by
  cases named
  · rfl
  · exact SerialIter.get160Currency_add160 currency rest

/-- One turn of the reader on the bytes of an element appends what it reads to the path. -/
theorem readPaths_addElement {element : STPathElement} (wire : WireType element.nodeType) (fuel : Nat)
    (path : STPath) (value : List STPath) (rest : SerialIter) :
    readPaths (fuel + 1) path value (addElement [] element ++ rest) =
      readPaths fuel (path ++ [readBack element]) value rest := by
  obtain ⟨byte, notNone, notBoundary, inside⟩ := wire.bounds
  rw [addElement_eq, List.nil_append, List.cons_append, readPaths, SerialIter.bind_apply_of_ok (get8_cons _ _),
    Nat.mod_eq_of_lt byte, if_neg (not_or.mpr ⟨notNone, notBoundary⟩), if_neg (not_not.mpr inside)]
  -- the three fields, each read exactly when it was written
  have named : ∀ bit, (element.nodeType &&& bit ≠ 0) = ((element.nodeType &&& bit != 0) = true) := by
    intro bit
    simp
  simp only [named, List.append_assoc]
  rw [SerialIter.bind_apply_of_ok (readIf_account _ _ _), SerialIter.bind_apply_of_ok (readIf_currency _ _ _),
    SerialIter.bind_apply_of_ok (readIf_account _ _ _ )]
  simp only [readBack, named]

/-- The reader takes the elements of a path one turn each. -/
theorem readPaths_elements {elements : STPath} (wire : ∀ e ∈ elements, WireType e.nodeType) (fuel : Nat)
    (path : STPath) (value : List STPath) (rest : SerialIter) :
    readPaths (fuel + elements.length) path value (elements.flatMap (addElement []) ++ rest) =
      readPaths fuel (path ++ elements.map readBack) value rest := by
  induction elements generalizing path with
  | nil => simp
  | cons element others ih =>
    have wireOthers : ∀ e ∈ others, WireType e.nodeType := fun e mem => wire e (List.mem_cons_of_mem _ mem)
    rw [List.flatMap_cons, List.append_assoc, List.length_cons, ← Nat.add_assoc,
      readPaths_addElement (wire element List.mem_cons_self), ih wireOthers]
    simp

/-- A boundary after a non-empty path pushes it and starts the next. -/
theorem readPaths_boundary {path : STPath} (nonempty : path ≠ []) (fuel : Nat) (value : List STPath)
    (rest : SerialIter) :
    readPaths (fuel + 1) path value (UInt8.ofNat typeBoundary :: rest) = readPaths fuel [] (value ++ [path]) rest := by
  rw [readPaths, SerialIter.bind_apply_of_ok (get8_cons _ _)]
  simp [typeBoundary, typeNone, nonempty]

/-- `typeNone` after a non-empty path pushes it and ends the path set. -/
theorem readPaths_none {path : STPath} (nonempty : path ≠ []) (fuel : Nat) (value : List STPath)
    (rest : SerialIter) :
    readPaths (fuel + 1) path value (UInt8.ofNat typeNone :: rest) = .ok (value ++ [path], rest) := by
  rw [readPaths, SerialIter.bind_apply_of_ok (get8_cons _ _)]
  simp [typeNone, nonempty]

/-- The bytes after the first path: each further path behind a boundary. -/
def boundedBytes (paths : List STPath) : List UInt8 :=
  paths.flatMap fun path => UInt8.ofNat typeBoundary :: path.flatMap (addElement [])

/-- The reader runs through the paths after the current one, one turn per element and per
marker, and ends at `typeNone`. -/
theorem readPaths_paths {paths : List STPath} (nonempty : ∀ p ∈ paths, p ≠ [])
    (wire : ∀ p ∈ paths, ∀ e ∈ p, WireType e.nodeType) {path : STPath} (current : path ≠ [])
    (value : List STPath) (rest : SerialIter) {fuel : Nat} (enough : (paths.map (·.length + 1)).sum < fuel) :
    readPaths fuel path value (boundedBytes paths ++ UInt8.ofNat typeNone :: rest) =
      .ok (value ++ path :: paths.map (·.map readBack), rest) := by
  induction paths generalizing path value fuel with
  | nil =>
    obtain ⟨left, rfl⟩ := Nat.exists_eq_add_of_lt enough
    simpa [boundedBytes] using readPaths_none current left value rest
  | cons next others ih =>
    -- the fuel pays for the boundary, the elements of `next` and then the paths after it
    have more : (others.map (·.length + 1)).sum < fuel - (next.length + 1) := by
      simp only [List.map_cons, List.sum_cons] at enough
      omega
    have split : fuel = (fuel - (next.length + 1) + next.length) + 1 := by
      simp only [List.map_cons, List.sum_cons] at enough
      omega
    have nextWire : ∀ e ∈ next, WireType e.nodeType := wire next List.mem_cons_self
    have nextNonempty : next.map readBack ≠ [] := by simpa using nonempty next List.mem_cons_self
    have bytes : boundedBytes (next :: others) ++ UInt8.ofNat typeNone :: rest =
        UInt8.ofNat typeBoundary :: (next.flatMap (addElement []) ++ (boundedBytes others ++ UInt8.ofNat typeNone :: rest)) := by
      simp [boundedBytes]
    rw [bytes, split, readPaths_boundary current, readPaths_elements nextWire, List.nil_append,
      ih (fun p mem => nonempty p (List.mem_cons_of_mem _ mem)) (fun p mem => wire p (List.mem_cons_of_mem _ mem))
        nextNonempty _ more]
    simp

theorem length_flatMap_addElement (elements : STPath) :
    elements.length ≤ (elements.flatMap (addElement [])).length := by
  induction elements with
  | nil => simp
  | cons element others ih =>
    rw [List.flatMap_cons, List.length_append, addElement_eq, List.nil_append, List.length_cons, List.length_cons]
    omega

theorem length_boundedBytes (paths : List STPath) :
    (paths.map (·.length + 1)).sum ≤ (boundedBytes paths).length := by
  induction paths with
  | nil => simp [boundedBytes]
  | cons path others ih =>
    have elements := length_flatMap_addElement path
    rw [boundedBytes, List.flatMap_cons, ← boundedBytes, List.length_append, List.length_cons]
    simp only [List.map_cons, List.sum_cons]
    omega

/-- Every non-empty path set whose paths are non-empty and whose types name only the three fields
reads back from the bytes `add` writes, element by element as the reader rebuilds it. -/
theorem fromSerialIter_add {value : List STPath} (nonempty : value ≠ []) (paths : ∀ p ∈ value, p ≠ [])
    (wire : ∀ p ∈ value, ∀ e ∈ p, WireType e.nodeType) :
    fromSerialIter (add value []) = .ok (value.map (·.map readBack), []) := by
  obtain ⟨first, others, rfl⟩ := List.exists_cons_of_ne_nil nonempty
  have written : add (first :: others) [] =
      first.flatMap (addElement []) ++ (boundedBytes others ++ [UInt8.ofNat typeNone]) := by
    simp [add, addPaths, foldl_addElement, addPaths_false, boundedBytes, Serializer.add8]
  have firstShort := length_flatMap_addElement first
  have othersShort := length_boundedBytes others
  have enough : (others.map (·.length + 1)).sum <
      (first.flatMap (addElement []) ++ (boundedBytes others ++ [UInt8.ofNat typeNone])).length + 1 - first.length := by
    simp only [List.length_append, List.length_singleton]
    omega
  have split : (first.flatMap (addElement []) ++ (boundedBytes others ++ [UInt8.ofNat typeNone])).length + 1 =
      ((first.flatMap (addElement []) ++ (boundedBytes others ++ [UInt8.ofNat typeNone])).length + 1 - first.length) +
        first.length := by
    simp only [List.length_append, List.length_singleton]
    omega
  have firstWire : ∀ e ∈ first, WireType e.nodeType := wire first List.mem_cons_self
  have firstNonempty : [] ++ first.map readBack ≠ [] := by simpa using paths first List.mem_cons_self
  rw [written, fromSerialIter, split, readPaths_elements firstWire,
    readPaths_paths (fun p mem => paths p (List.mem_cons_of_mem _ mem)) (fun p mem => wire p (List.mem_cons_of_mem _ mem))
      firstNonempty [] [] enough]
  simp

/-! ## Which elements keep their identifiers -/

/-- A type the constructors build is one the reader takes exactly when it names a field. -/
theorem wireType_typeOf (account currency issuer : Bool) :
    WireType (typeOf account currency issuer) ↔ (account || currency || issuer) = true := by
  cases account <;> cases currency <;> cases issuer <;> decide

/-- The fields an element's type does not name hold the zero of their type, which is what the
reader gives back for them. -/
structure UnnamedZero (element : STPathElement) : Prop where
  account : element.nodeType &&& typeAccount = 0 → element.accountID = AccountID.zero
  currency : element.nodeType &&& typeCurrency = 0 → element.currency = Currency.xrpCurrency
  issuer : element.nodeType &&& typeIssuer = 0 → element.issuerID = AccountID.zero

theorem ite_named {α : Type} {bits : Nat} {field zero : α} (unnamed : bits = 0 → field = zero) :
    (if bits ≠ 0 then field else zero) = field := by
  split
  · rfl
  case isFalse notNamed => exact (unnamed (not_not.mp notNamed)).symm

/-- The reader gives back the identifiers of an element whose unnamed fields are zero. -/
theorem ids_readBack {element : STPathElement} (unnamed : UnnamedZero element) :
    (readBack element).ids = element.ids := by
  rw [readBack, ids_ofIds, ite_named unnamed.account, ite_named unnamed.currency, ite_named unnamed.issuer]
  rfl

/-- A path set whose elements all keep their identifiers reads back with the same identifiers,
path by path. -/
theorem ids_fromSerialIter_add {value : List STPath} (nonempty : value ≠ []) (paths : ∀ p ∈ value, p ≠ [])
    (wire : ∀ p ∈ value, ∀ e ∈ p, WireType e.nodeType) (unnamed : ∀ p ∈ value, ∀ e ∈ p, UnnamedZero e) :
    ∃ decoded, fromSerialIter (add value []) = .ok (decoded, []) ∧
      decoded.map (·.map ids) = value.map (·.map ids) := by
  refine ⟨_, fromSerialIter_add nonempty paths wire, ?_⟩
  rw [List.map_map]
  refine List.map_congr_left fun path member => ?_
  rw [Function.comp_apply, List.map_map]
  refine List.map_congr_left fun element inPath => ?_
  exact ids_readBack (unnamed path member element inPath)

/-- An element built from optional fields names exactly the fields given. -/
theorem unnamedZero_ofOptionals (account : Option AccountID) (currency : Option Currency)
    (issuer : Option AccountID) : UnnamedZero (ofOptionals account currency issuer) := by
  refine ⟨fun unnamed => ?_, fun unnamed => ?_, fun unnamed => ?_⟩ <;>
    rw [nodeType_ofOptionals] at unnamed
  · rw [typeOf_and_typeAccount, Option.isSome_eq_false_iff, Option.isNone_iff_eq_none] at unnamed
    simp [ofOptionals, unnamed]
  · rw [typeOf_and_typeCurrency, Option.isSome_eq_false_iff, Option.isNone_iff_eq_none] at unnamed
    simp [ofOptionals, unnamed]
  · rw [typeOf_and_typeIssuer, Option.isSome_eq_false_iff, Option.isNone_iff_eq_none] at unnamed
    simp [ofOptionals, unnamed]

/-- An element built from identifiers names every one that is not native, so it keeps them when
no account is the VBC account and a VBC currency is forced. -/
theorem unnamedZero_ofIds {account issuer : AccountID} {currency : Currency} {forceCurrency : Bool}
    (accountNotVBC : account ≠ vbcAccount) (issuerNotVBC : issuer ≠ vbcAccount)
    (currencyKept : forceCurrency = true ∨ currency ≠ Currency.vbcCurrency) :
    UnnamedZero (ofIds account currency issuer forceCurrency) := by
  refine ⟨fun unnamed => ?_, fun unnamed => ?_, fun unnamed => ?_⟩ <;>
    rw [nodeType_ofIds] at unnamed
  -- an unnamed field is native, and the only native value left is zero
  · rw [typeOf_and_typeAccount] at unnamed
    have zero : account = xrpAccount := by simpa [isNativeAccount, accountNotVBC] using unnamed
    exact zero
  · rw [typeOf_and_typeCurrency, Bool.or_eq_false_iff] at unnamed
    obtain ⟨notForced, native⟩ := unnamed
    have notVBC : currency ≠ Currency.vbcCurrency := currencyKept.resolve_left (by simp [notForced])
    have zero : currency = Currency.xrpCurrency := by
      simpa [Currency.isNative, Currency.isXRP, Currency.isVBC, notVBC] using native
    exact zero
  · rw [typeOf_and_typeIssuer] at unnamed
    have zero : issuer = xrpAccount := by simpa [isNativeAccount, issuerNotVBC] using unnamed
    exact zero

/-- An element through the VBC account, built from its identifiers, is written without its
account and read back through account zero. -/
theorem path_through_vbc_account_reads_zero :
    fromSerialIter (add [[ofIds vbcAccount (Currency.ofNat 0x555344) (AccountID.ofNat 5) false]] []) =
        .ok ([[ofIds AccountID.zero (Currency.ofNat 0x555344) (AccountID.ofNat 5) true]], []) ∧
      (ofIds AccountID.zero (Currency.ofNat 0x555344) (AccountID.ofNat 5) true).ids ≠
        (ofIds vbcAccount (Currency.ofNat 0x555344) (AccountID.ofNat 5) false).ids := by
  constructor
  · rw [fromSerialIter_add (by simp) (by simp) (by decide)]
    decide
  · decide

end STPathSet

end RadardFormal.Protocol
