import TurbineGovernor.RegInfoTables

/-!
# The elements of the IO information file

What a file has to look like for the two loops to read it as it is written, said
of its tokens. In a file whose `Var` elements each have one `HMI` and one
`RemAddr` inside them the loops keep to the elements.
-/

namespace RegInfoFile
open CommonTypes KeyedTables HmiImage StartUp DecimalTexts

/-- The attributes of the start of an element. -/
def XmlToken.start (name : String) : XmlToken → Option Attributes
  | startElement name' attributes => if name' = name then some attributes else none
  | _ => none

/-- The elements of one name among some tokens. -/
def starts (name : String) (ts : List XmlToken) : List Attributes :=
  ts.filterMap (XmlToken.start name)

def knownUse (attributes : Attributes) : Option Use := (attributes.lookup "Use").bind useOf

/-- The address has its three parts, whatever they say. -/
def Addressed (attributes : Attributes) : Prop :=
  (attributes.lookup "Head").isSome ∧ (attributes.lookup "Mod").isSome ∧
    (attributes.lookup "Ch").isSome

/-- The address, if each of its parts is written as a number of a byte. -/
def writtenAddr (attributes : Attributes) : Option IOAddr :=
  match writtenByte attributes "Head", writtenByte attributes "Mod",
      writtenByte attributes "Ch" with
  | some head, some mod, some ch => some { uiHeader := head, uiModule := mod, uiChannel := ch }
  | _, _, _ => none

/-- A `Var` with an ID and a known kind that has one use and one address inside it,
and no other `Var`. -/
structure SelfContained (element : Attributes × List XmlToken) : Prop where
  id : (element.1.lookup "ID").isSome
  fr : ((element.1.lookup "FR").bind frOf).isSome
  flat : starts "Var" element.2 = []
  hmi : ∃ attributes, starts "HMI" element.2 = [attributes] ∧ (knownUse attributes).isSome
  remAddr : ∃ attributes, starts "RemAddr" element.2 = [attributes] ∧ Addressed attributes

/-- The HMI has no use for the variable. -/
def Unused (element : Attributes × List XmlToken) : Prop :=
  ∃ attributes ∈ starts "HMI" element.2, knownUse attributes = some .NO

/-- Every `Var` is self-contained. -/
def Regular (ts : List XmlToken) : Prop := ∀ element ∈ varElements ts, SelfContained element

/-- No error ends the stream, the addresses are numbers of bytes, and neither they
nor the IDs occur twice. -/
structure Sound (s : TokenStream) (ts : List XmlToken) : Prop where
  noError : s.error = false
  bytes : ∀ element ∈ varElements ts, ∀ attributes ∈ starts "RemAddr" element.2,
    (writtenAddr attributes).isSome
  ids : ((varElements ts).map (fun element => (element.1.lookup "ID").map toUInt)).Nodup
  addrs : ((varElements ts).map
    (fun element => (starts "RemAddr" element.2).map writtenAddr)).Nodup

/-- A `Var` that misses an attribute, or is followed by no known use or by no
address to the end of the file. -/
def Broken (attributes : Attributes) (rest : List XmlToken) : Prop :=
  attributes.lookup "ID" = none ∨ (attributes.lookup "FR").bind frOf = none ∨
    (∀ hmi ∈ starts "HMI" rest, knownUse hmi = none) ∨
    ∀ remAddr ∈ starts "RemAddr" rest, ¬ Addressed remAddr

/-- After self-contained elements comes one that is broken. -/
def BreaksOff : List XmlToken → Prop
  | [] => False
  | t :: ts =>
    match t.start "Var" with
    | some attributes =>
      Broken attributes ts ∨ SelfContained (attributes, content 0 ts) ∧ BreaksOff ts
    | none => BreaksOff ts

/-- The file is another one; or a broken element ends it; or all elements are
self-contained, and it is sound exactly when every variable is used. -/
def Orderly (s : TokenStream) : Prop :=
  match afterVars s.tokens with
  | none => True
  | some ts =>
    BreaksOff ts ∨ Regular ts ∧ ((∀ element ∈ varElements ts, ¬ Unused element) ↔ Sound s ts)

section Starts
variable {name : String} {t : XmlToken} {ts : List XmlToken} {attributes : Attributes}

theorem varAttributes_eq (t : XmlToken) : t.varAttributes = t.start "Var" := by
  cases t <;> rfl

theorem start_eq_some : t.start name = some attributes ↔ t = .startElement name attributes := by
  cases t with
  | startElement name' attributes' =>
    simp only [XmlToken.start]
    split
    · rename_i hname
      rw [hname, Option.some.injEq, XmlToken.startElement.injEq]
      exact (and_iff_right rfl).symm
    · rename_i hname
      simp [hname]
  | endElement => simp [XmlToken.start]
  | other => simp [XmlToken.start]

theorem mem_starts : attributes ∈ starts name ts ↔ .startElement name attributes ∈ ts := by
  rw [starts, List.mem_filterMap]
  constructor
  · rintro ⟨t, ht, hstart⟩
    rwa [start_eq_some.mp hstart] at ht
  · intro hmem
    exact ⟨_, hmem, start_eq_some.mpr rfl⟩

theorem starts_cons_self :
    starts name (.startElement name attributes :: ts) = attributes :: starts name ts :=
  List.filterMap_cons_some (start_eq_some.mpr rfl)

theorem starts_cons_none (h : t.start name = none) : starts name (t :: ts) = starts name ts :=
  List.filterMap_cons_none h

theorem start_none_of_nil (h : starts name (t :: ts) = []) : t.start name = none := by
  rw [starts, List.filterMap_eq_nil_iff] at h
  exact h t List.mem_cons_self

end Starts

/-- The content of an element, token by token. -/
theorem content_cons (depth : Nat) (t : XmlToken) (ts : List XmlToken) :
    (t = .endElement ∧ content depth (t :: ts) = []) ∨
      ∃ depth', content depth (t :: ts) = t :: content depth' ts := by
  cases t with
  | startElement name attributes => exact Or.inr ⟨depth + 1, rfl⟩
  | endElement =>
    cases depth with
    | zero => exact Or.inl ⟨rfl, rfl⟩
    | succ depth => exact Or.inr ⟨depth, rfl⟩
  | other => exact Or.inr ⟨depth, by cases depth <;> rfl⟩

/-- While an element holds all that its reading needs, the reading ends before the
next element. -/
theorem fates_inside {v : VarReading} {depth : Nat} {ts : List XmlToken}
    (flat : starts "Var" (content depth ts) = [])
    (hUse : v.bUseReaded = true ∨ ∃ t ∈ content depth ts, IsHmi t)
    (hAddr : v.bAddrReaded = true ∨ ∃ t ∈ content depth ts, IsRemAddr t) :
    fates (some v) ts = fates none ts := by
  induction ts generalizing v depth with
  | nil => rfl
  | cons t ts ih =>
    have hvar : t.varAttributes = none := by
      rw [varAttributes_eq]
      rcases content_cons depth t ts with ⟨rfl, _⟩ | ⟨depth', hcontent⟩
      · rfl
      · rw [hcontent] at flat
        exact start_none_of_nil flat
    rw [fates, fates]
    simp only [hvar]
    by_cases hcomplete : complete v = true
    · rw [if_pos hcomplete]
    · rw [if_neg hcomplete]
      rcases content_cons depth t ts with ⟨_, hcontent⟩ | ⟨depth', hcontent⟩
      · rw [hcontent] at hUse hAddr
        refine absurd ?_ hcomplete
        rw [complete, Bool.and_eq_true]
        exact ⟨hUse.resolve_right (by simp), hAddr.resolve_right (by simp)⟩
      · rw [hcontent] at flat hUse hAddr
        rw [starts_cons_none (start_none_of_nil flat)] at flat
        refine ih flat ?_ ?_
        · rcases hUse with hUse | ⟨t', ht', hhmi⟩
          · exact Or.inl (useFlag.kept v t hUse)
          · rcases List.mem_cons.mp ht' with rfl | hrest
            · exact Or.inl (useFlag.raised v _ hhmi)
            · exact Or.inr ⟨t', hrest, hhmi⟩
        · rcases hAddr with hAddr | ⟨t', ht', hremAddr⟩
          · exact Or.inl (addrFlag.kept v t hAddr)
          · rcases List.mem_cons.mp ht' with rfl | hrest
            · exact Or.inl (addrFlag.raised v _ hremAddr)
            · exact Or.inr ⟨t', hrest, hremAddr⟩

def partsAddr (parts : BitVec 8 × BitVec 8 × BitVec 8) : IOAddr :=
  { uiHeader := parts.1, uiModule := parts.2.1, uiChannel := parts.2.2 }

theorem remAddrOf_isSome (attributes : Attributes) :
    (remAddrOf attributes).isSome ↔ Addressed attributes := by
  rw [remAddrOf, Addressed]
  cases attributes.lookup "Head" <;> cases attributes.lookup "Mod" <;>
    cases attributes.lookup "Ch" <;> simp

/-- The flag and the value of one of the two parts that a reading looks for: it has
been read and does not come again, or it is still to come. -/
def Ahead {A : Type} (name : String) (valueOf : Attributes → Option A) (flag : Bool)
    (read value : A) (inside : List XmlToken) : Prop :=
  (flag = true ∧ read = value ∧ starts name inside = []) ∨
    flag = false ∧ ∃ attributes, starts name inside = [attributes] ∧ valueOf attributes = some value

section Ahead
variable {A : Type} {name : String} {valueOf : Attributes → Option A} {flag : Bool} {read value : A}
  {t : XmlToken} {inside : List XmlToken}

theorem Ahead.skip (h : Ahead name valueOf flag read value (t :: inside))
    (hother : t.start name = none) : Ahead name valueOf flag read value inside := by
  rwa [Ahead, starts_cons_none hother] at h

/-- The token that brings the part. -/
theorem Ahead.take {attributes : Attributes}
    (h : Ahead name valueOf flag read value (.startElement name attributes :: inside)) :
    flag = false ∧ valueOf attributes = some value ∧ starts name inside = [] := by
  rw [Ahead, starts_cons_self] at h
  rcases h with ⟨_, _, hnil⟩ | ⟨hflag, attributes', hstarts, hvalue⟩
  · cases hnil
  · obtain ⟨rfl, hrest⟩ := List.cons.inj hstarts
    exact ⟨hflag, hvalue, hrest⟩

theorem Ahead.ended (h : Ahead name valueOf flag read value []) : flag = true ∧ read = value := by
  rcases h with ⟨hflag, hread, _⟩ | ⟨_, attributes, hstarts, _⟩
  · exact ⟨hflag, hread⟩
  · cases hstarts

theorem Ahead.done (h : Ahead name valueOf flag read value inside) (hflag : flag = true) :
    read = value := by
  rcases h with ⟨_, hread, _⟩ | ⟨hfalse, _⟩
  · exact hread
  · rw [hflag] at hfalse
    cases hfalse

end Ahead

/-- The reading of an element that has both parts once is that of these parts. -/
theorem readAll_inside {v : VarReading} {depth : Nat} {ts : List XmlToken} {use : Use}
    {tAddr : IOAddr}
    (hUse : Ahead "HMI" (fun a => (knownUse a).map some) v.bUseReaded v.strUse (some use)
      (content depth ts))
    (hAddr : Ahead "RemAddr" (fun a => (remAddrOf a).map partsAddr) v.bAddrReaded v.tAddr tAddr
      (content depth ts)) :
    complete (readAll v ts) = true ∧ (readAll v ts).strUse = some use ∧
      (readAll v ts).tAddr = tAddr := by
  induction ts generalizing v depth with
  | nil =>
    rw [content] at hUse hAddr
    rw [readAll, complete, hUse.ended.1, hAddr.ended.1]
    exact ⟨rfl, hUse.ended.2, hAddr.ended.2⟩
  | cons t ts ih =>
    rw [readAll]
    by_cases hcomplete : complete v = true
    · rw [if_pos hcomplete]
      exact ⟨hcomplete, hUse.done (useFlag.complete v hcomplete),
        hAddr.done (addrFlag.complete v hcomplete)⟩
    · rw [if_neg hcomplete]
      rcases content_cons depth t ts with ⟨_, hcontent⟩ | ⟨depth', hcontent⟩
      · rw [hcontent] at hUse hAddr
        refine absurd ?_ hcomplete
        rw [complete, hUse.ended.1, hAddr.ended.1]
        rfl
      · rw [hcontent] at hUse hAddr
        cases hhmi : t.start "HMI" with
        | some attributes =>
          obtain rfl := start_eq_some.mp hhmi
          obtain ⟨hflag, hvalue, hrest⟩ := hUse.take
          obtain ⟨use', hknown, hsome⟩ := Option.map_eq_some_iff.mp hvalue
          obtain rfl := Option.some.inj hsome
          obtain ⟨text, htext, hof⟩ := Option.bind_eq_some_iff.mp hknown
          have htoken : (XmlToken.startElement "HMI" attributes).inVar =
              .hmi (some (some use')) := by
            rw [← hof, XmlToken.inVar, if_pos rfl, htext]
            rfl
          rw [htoken]
          refine ih (Or.inl ⟨Bool.or_true _, rfl, hrest⟩) ?_
          exact hAddr.skip (by simp [XmlToken.start])
        | none =>
          cases hremAddr : t.start "RemAddr" with
          | some attributes =>
            obtain rfl := start_eq_some.mp hremAddr
            obtain ⟨hflag, hvalue, hrest⟩ := hAddr.take
            obtain ⟨parts, hparts, rfl⟩ := Option.map_eq_some_iff.mp hvalue
            have htoken : (XmlToken.startElement "RemAddr" attributes).inVar =
                .remAddr (some parts) := by
              rw [← hparts]
              rfl
            rw [htoken]
            exact ih (hUse.skip hhmi) (Or.inl ⟨rfl, rfl, hrest⟩)
          | none =>
            have htoken : t.inVar = .other := by
              cases t with
              | startElement name attributes =>
                have hname : name ≠ "HMI" := by
                  rintro rfl
                  simp [XmlToken.start] at hhmi
                have hname' : name ≠ "RemAddr" := by
                  rintro rfl
                  simp [XmlToken.start] at hremAddr
                rw [XmlToken.inVar, if_neg hname, if_neg hname']
              | endElement => rfl
              | other => rfl
            rw [htoken]
            exact ih (hUse.skip hhmi) (hAddr.skip hremAddr)

/-- What the loops take for an element is what stands in it. -/
structure TakenFrom (element : Attributes × List XmlToken) (v : VarReading) : Prop where
  complete : complete v = true
  id : (element.1.lookup "ID").map toUInt = some v.uiId
  fr : (element.1.lookup "FR").bind frOf = some v.strFr
  use : ∃ attributes, starts "HMI" element.2 = [attributes] ∧ knownUse attributes = v.strUse
  addr : ∃ attributes, starts "RemAddr" element.2 = [attributes] ∧
    (remAddrOf attributes).map partsAddr = some v.tAddr

theorem SelfContained.taken {attributes : Attributes} {ts : List XmlToken}
    (h : SelfContained (attributes, content 0 ts)) :
    ∃ v, newReading attributes = some v ∧ fates (some v) ts = fates none ts ∧
      TakenFrom (attributes, content 0 ts) (readAll v ts) := by
  obtain ⟨id, hid⟩ := Option.isSome_iff_exists.mp h.id
  obtain ⟨fr, hfr⟩ := Option.isSome_iff_exists.mp h.fr
  obtain ⟨hmi, hhmi, hknown⟩ := h.hmi
  obtain ⟨use, huse⟩ := Option.isSome_iff_exists.mp hknown
  obtain ⟨remAddr, hremAddr, haddressed⟩ := h.remAddr
  obtain ⟨parts, hparts⟩ := Option.isSome_iff_exists.mp ((remAddrOf_isSome remAddr).mpr haddressed)
  obtain ⟨text, htext, hof⟩ := Option.bind_eq_some_iff.mp hfr
  have hnew : newReading attributes = some { uiId := toUInt id, strFr := fr } := by
    simp only [newReading, varOf, hid, htext, hof]
  have hinside : .startElement "HMI" hmi ∈ content 0 ts := mem_starts.mp (by rw [hhmi]; simp)
  have hinside' : .startElement "RemAddr" remAddr ∈ content 0 ts :=
    mem_starts.mp (by rw [hremAddr]; simp)
  obtain ⟨hcomplete, hstrUse, htAddr⟩ := @readAll_inside { uiId := toUInt id, strFr := fr } 0 ts use
    (partsAddr parts) (Or.inr ⟨rfl, hmi, hhmi, by simp [huse]⟩)
    (Or.inr ⟨rfl, remAddr, hremAddr, by simp [hparts]⟩)
  obtain ⟨hkeptId, hkeptFr⟩ := readAll_kept { uiId := toUInt id, strFr := fr } ts
  refine ⟨_, hnew, ?_, hcomplete, ?_, ?_, ⟨hmi, hhmi, ?_⟩, ⟨remAddr, hremAddr, ?_⟩⟩
  · exact fates_inside h.flat (Or.inr ⟨_, hinside, hmi, rfl, hknown⟩)
      (Or.inr ⟨_, hinside', remAddr, rfl, (remAddrOf_isSome remAddr).mpr haddressed⟩)
  · rw [hid, hkeptId]
    rfl
  · rw [hfr, hkeptFr]
  · rw [huse, hstrUse]
  · rw [hparts, htAddr]
    rfl

theorem writtenAddr_eq_some {attributes : Attributes} {tAddr : IOAddr} :
    writtenAddr attributes = some tAddr ↔ WritesAddr attributes tAddr := by
  rw [writtenAddr]
  constructor
  · intro h
    split at h
    · rename_i head mod ch hhead hmod hch
      obtain rfl := Option.some.inj h
      exact ⟨hhead, hmod, hch, rfl⟩
    · cases h
  · rintro ⟨hhead, hmod, hch, hbits⟩
    rw [hhead, hmod, hch]
    obtain ⟨uiHeader, uiModule, uiChannel, uiNumBits⟩ := tAddr
    obtain rfl : uiNumBits = 0 := hbits
    rfl

/-- A number of a byte is read as it is written. -/
theorem setWidth_toUInt {attributes : Attributes} {name : String} {b : BitVec 8}
    (h : writtenByte attributes name = some b) :
    (attributes.lookup name).map (fun text => (toUInt text).setWidth 8) = some b := by
  obtain ⟨text, htext, hwritten⟩ := Option.bind_eq_some_iff.mp h
  obtain ⟨n, hn, rfl⟩ := Option.map_eq_some_iff.mp hwritten
  obtain ⟨hvalue, hlow, hhigh⟩ := writtenBelow_eq_some.mp hn
  have hword : writtenBelow (2 ^ 32) text = some n :=
    writtenBelow_eq_some.mpr ⟨hvalue, hlow, by omega⟩
  rw [htext, Option.map_some, toUInt, hword, Option.some.injEq]
  apply BitVec.eq_of_toNat_eq
  rw [BitVec.toNat_setWidth, BitVec.toNat_ofInt, BitVec.toNat_ofInt]
  omega

theorem WritesAddr.parts {attributes : Attributes} {tAddr : IOAddr}
    (h : WritesAddr attributes tAddr) :
    (remAddrOf attributes).map partsAddr = some tAddr := by
  obtain ⟨head, hhead, hheadByte⟩ := Option.map_eq_some_iff.mp (setWidth_toUInt h.head)
  obtain ⟨mod, hmod, hmodByte⟩ := Option.map_eq_some_iff.mp (setWidth_toUInt h.mod)
  obtain ⟨ch, hch, hchByte⟩ := Option.map_eq_some_iff.mp (setWidth_toUInt h.ch)
  have hbits := h.numBits
  obtain ⟨uiHeader, uiModule, uiChannel, uiNumBits⟩ := tAddr
  subst hbits
  simp only [remAddrOf, hhead, hmod, hch, Option.map_some, partsAddr, hheadByte, hmodByte, hchByte]

section Element
variable {element : Attributes × List XmlToken} {x : VarXml}

theorem SelfContained.addr_of (h : SelfContained element) (hx : Describes element x) :
    (starts "RemAddr" element.2).map writtenAddr = [some x.tAddr] := by
  obtain ⟨remAddr, hremAddr, _⟩ := h.remAddr
  obtain ⟨attributes, hmem, hwrites⟩ := hx.addr
  have hmem := mem_starts.mpr hmem
  rw [hremAddr, List.mem_singleton] at hmem
  rw [hremAddr, List.map_singleton, ← hmem, writtenAddr_eq_some.mpr hwrites]

end Element

/-- Two lists that agree pair by pair have the same values. -/
theorem map_eq_of_forall₂ {A B C : Type} {R : A → B → Prop} {f : A → C} {g : B → C} {as : List A}
    {bs : List B} (h : List.Forall₂ R as bs) (hfg : ∀ a b, R a b → f a = g b) :
    as.map f = bs.map g := by
  induction h with
  | nil => rfl
  | cons hr _ ih => rw [List.map_cons, List.map_cons, hfg _ _ hr, ih]

section Regular
variable {s : TokenStream} {ts : List XmlToken}

/-- What tells the variables of a regular file apart, by its tokens. -/
theorem Regular.keys (regular : Regular ts) {xs : List VarXml}
    (hxs : List.Forall₂ Describes (varElements ts) xs) :
    (varElements ts).map (fun element => (element.1.lookup "ID").map toUInt) =
      xs.map (fun x => some x.uiId) ∧
    (varElements ts).map (fun element => (starts "RemAddr" element.2).map writtenAddr) =
      xs.map (fun x => [some x.tAddr]) := by
  have hboth := (List.forall₂_and_left _ _).mpr ⟨regular, hxs⟩
  exact ⟨map_eq_of_forall₂ hxs (fun _ _ hx => hx.id),
    map_eq_of_forall₂ hboth (fun _ _ h => h.1.addr_of h.2)⟩

end Regular

end RegInfoFile
