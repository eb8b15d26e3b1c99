import TurbineGovernor.RegInfoFile

/-!
# The variables that the file describes

A `Var` that is described inside its own element is always read to the end, so a
stream in which one is incomplete is not that of a file. When every element is
accepted, the tables are those of a file exactly when what is read for each is
what stands inside it.
-/

namespace RegInfoFile
open CommonTypes KeyedTables HmiImage StartUp DecimalTexts

theorem mem_of_content {t : XmlToken} {depth : Nat} {ts : List XmlToken}
    (h : t ∈ content depth ts) : t ∈ ts := by
  induction ts generalizing depth with
  | nil => cases depth <;> cases h
  | cons t' ts ih =>
    rw [List.mem_cons]
    cases t' with
    | startElement name attributes =>
      rw [content, List.mem_cons] at h
      exact h.imp_right ih
    | endElement =>
      cases depth with
      | zero => cases h
      | succ depth =>
        rw [content, List.mem_cons] at h
        exact h.imp_right ih
    | other =>
      rw [content, List.mem_cons] at h
      exact h.imp_right ih

theorem read_kept (v : VarReading) (t : Token) :
    (v.read t).uiId = v.uiId ∧ (v.read t).strFr = v.strFr := by
  simp only [VarReading.read]
  split
  · exact ⟨rfl, rfl⟩
  · exact ⟨rfl, rfl⟩
  · exact ⟨rfl, rfl⟩

theorem readAll_kept (v : VarReading) (ts : List XmlToken) :
    (readAll v ts).uiId = v.uiId ∧ (readAll v ts).strFr = v.strFr := by
  induction ts generalizing v with
  | nil => exact ⟨rfl, rfl⟩
  | cons t ts ih =>
    rw [readAll]
    split
    · exact ⟨rfl, rfl⟩
    · have hrest := ih (v.read t.inVar)
      have hread := read_kept v t.inVar
      exact ⟨hrest.1.trans hread.1, hrest.2.trans hread.2⟩

/-- A flag that no token lowers, and that `raises` says when a token raises it. -/
structure RaisedBy (flag : VarReading → Bool) (raises : XmlToken → Prop) : Prop where
  kept : ∀ (v : VarReading) (t : XmlToken), flag v = true → flag (v.read t.inVar) = true
  raised : ∀ (v : VarReading) t, raises t → flag (v.read t.inVar) = true
  only : ∀ (v : VarReading) t, flag (v.read t.inVar) = true → flag v = true ∨ raises t
  complete : ∀ v, RegInfoFile.complete v = true → flag v = true

namespace RaisedBy
variable {flag : VarReading → Bool} {raises : XmlToken → Prop}

theorem readAll_kept (h : RaisedBy flag raises) {v : VarReading} (hv : flag v = true)
    (ts : List XmlToken) : flag (readAll v ts) = true := by
  induction ts generalizing v with
  | nil => exact hv
  | cons t ts ih =>
    rw [readAll]
    split
    · exact hv
    · exact ih (h.kept v t hv)

theorem readAll_raised (h : RaisedBy flag raises) (v : VarReading) {ts : List XmlToken}
    {t : XmlToken} (ht : t ∈ ts) (hraises : raises t) : flag (readAll v ts) = true := by
  induction ts generalizing v with
  | nil => cases ht
  | cons t' ts ih =>
    rw [readAll]
    split
    · rename_i hcomplete
      exact h.complete v hcomplete
    · rcases List.mem_cons.mp ht with rfl | hrest
      · exact h.readAll_kept (h.raised v t hraises) ts
      · exact ih _ hrest

theorem raised_of_readAll (h : RaisedBy flag raises) {v : VarReading} (hv : flag v = false)
    {ts : List XmlToken} (hall : flag (readAll v ts) = true) : ∃ t ∈ ts, raises t := by
  induction ts generalizing v with
  | nil =>
    rw [readAll, hv] at hall
    cases hall
  | cons t ts ih =>
    rw [readAll] at hall
    split at hall
    · rw [hv] at hall
      cases hall
    · cases hread : flag (v.read t.inVar) with
      | false =>
        obtain ⟨t', ht', hraises⟩ := ih hread hall
        exact ⟨t', List.mem_cons_of_mem _ ht', hraises⟩
      | true =>
        rcases h.only v t hread with hflag | hraises
        · rw [hv] at hflag
          cases hflag
        · exact ⟨t, List.mem_cons_self, hraises⟩

end RaisedBy

/-- A `RemAddr` with all its attributes, and an `HMI` with a use that is known. -/
def IsRemAddr (t : XmlToken) : Prop :=
  ∃ attributes, t = .startElement "RemAddr" attributes ∧ (remAddrOf attributes).isSome

def IsHmi (t : XmlToken) : Prop :=
  ∃ attributes, t = .startElement "HMI" attributes ∧
    ((attributes.lookup "Use").bind useOf).isSome

theorem addrFlag : RaisedBy VarReading.bAddrReaded IsRemAddr := by
  constructor
  · intro v t hv
    simp only [VarReading.read]
    split
    · exact hv
    · rfl
    · exact hv
  · rintro v t ⟨attributes, rfl, hsome⟩
    obtain ⟨a, ha⟩ := Option.isSome_iff_exists.mp hsome
    have htoken : (XmlToken.startElement "RemAddr" attributes).inVar = .remAddr (some a) := by
      rw [← ha]
      rfl
    rw [htoken]
    rfl
  · intro v t hread
    cases t with
    | startElement name attributes =>
      simp only [XmlToken.inVar] at hread
      split at hread
      · cases huse : (attributes.lookup "Use").map useOf <;> rw [huse] at hread <;>
          exact Or.inl hread
      · split at hread
        · rename_i hname
          cases haddr : remAddrOf attributes with
          | none =>
            rw [haddr] at hread
            exact Or.inl hread
          | some a => exact Or.inr ⟨attributes, by rw [hname], by rw [haddr]; rfl⟩
        · exact Or.inl hread
    | endElement => exact Or.inl hread
    | other => exact Or.inl hread
  · intro v hv
    rw [complete, Bool.and_eq_true] at hv
    exact hv.2

theorem useFlag : RaisedBy VarReading.bUseReaded IsHmi := by
  constructor
  · intro v t hv
    simp only [VarReading.read]
    split
    · simp only [hv, Bool.true_or]
    · exact hv
    · exact hv
  · rintro v t ⟨attributes, rfl, hsome⟩
    obtain ⟨use, huse⟩ := Option.isSome_iff_exists.mp hsome
    obtain ⟨text, htext, hof⟩ := Option.bind_eq_some_iff.mp huse
    have htoken : (XmlToken.startElement "HMI" attributes).inVar = .hmi (some (some use)) := by
      rw [← hof, XmlToken.inVar, if_pos rfl, htext]
      rfl
    rw [htoken]
    exact Bool.or_true _
  · intro v t hread
    cases t with
    | startElement name attributes =>
      simp only [XmlToken.inVar] at hread
      split at hread
      · rename_i hname
        cases huse : attributes.lookup "Use" with
        | none =>
          rw [huse] at hread
          exact Or.inl hread
        | some text =>
          rw [huse, Option.map_some] at hread
          refine (Bool.or_eq_true_iff.mp hread).imp_right (fun hknown => ?_)
          exact ⟨attributes, by rw [hname], by rw [huse]; exact hknown⟩
      · split at hread
        · cases haddr : remAddrOf attributes <;> rw [haddr] at hread <;> exact Or.inl hread
        · exact Or.inl hread
    | endElement => exact Or.inl hread
    | other => exact Or.inl hread
  · intro v hv
    rw [complete, Bool.and_eq_true] at hv
    exact hv.1

/-- The reading of a new variable is complete when the rest of the file has what it
needs, wherever it stands. -/
theorem complete_readAll_iff {v : VarReading} (hUse : v.bUseReaded = false)
    (hAddr : v.bAddrReaded = false) (ts : List XmlToken) :
    complete (readAll v ts) = true ↔ (∃ t ∈ ts, IsHmi t) ∧ ∃ t ∈ ts, IsRemAddr t := by
  rw [complete, Bool.and_eq_true]
  constructor
  · rintro ⟨huse, haddr⟩
    exact ⟨useFlag.raised_of_readAll hUse huse, addrFlag.raised_of_readAll hAddr haddr⟩
  · rintro ⟨⟨t, ht, hhmi⟩, t', ht', hremAddr⟩
    exact ⟨useFlag.readAll_raised v ht hhmi, addrFlag.readAll_raised v ht' hremAddr⟩

/-- The fate of an element says how it begins and what is read after it. -/
def Agrees (element : Attributes × List XmlToken) : Fate → Prop
  | .refused => newReading element.1 = none
  | .passedOver => True
  | .taken v => ∃ v₀ ts, newReading element.1 = some v₀ ∧ v = readAll v₀ ts ∧
    element.2 = content 0 ts

/-- The fate of an element and the variable that it describes. -/
def Linked (f : Fate) (x : VarXml) : Prop := ∃ element, Agrees element f ∧ Describes element x

section Described
variable {element : Attributes × List XmlToken} {x : VarXml} (h : Describes element x)
include h

theorem newReading_described :
    newReading element.1 = some { uiId := x.uiId, strFr := x.strFr } := by
  obtain ⟨id, hid, huiId⟩ := Option.map_eq_some_iff.mp h.id
  obtain ⟨fr, hfr, hstrFr⟩ := Option.bind_eq_some_iff.mp h.fr
  simp only [newReading, varOf, hid, hfr, huiId, hstrFr]

theorem remAddr_described : ∃ t ∈ element.2, IsRemAddr t := by
  obtain ⟨attributes, hmem, haddr⟩ := h.addr
  obtain ⟨head, hhead, _⟩ := Option.bind_eq_some_iff.mp haddr.head
  obtain ⟨mod, hmod, _⟩ := Option.bind_eq_some_iff.mp haddr.mod
  obtain ⟨ch, hch, _⟩ := Option.bind_eq_some_iff.mp haddr.ch
  refine ⟨_, hmem, attributes, rfl, ?_⟩
  rw [remAddrOf, hhead, hmod, hch]
  rfl

theorem hmi_described : ∃ t ∈ element.2, IsHmi t := by
  obtain ⟨attributes, hmem, huse⟩ := h.use
  refine ⟨_, hmem, attributes, rfl, ?_⟩
  rw [huse]
  rfl

end Described

/-- An element that describes a variable is read to the end. -/
theorem Linked.complete {f : Fate} {x : VarXml} (h : Linked f x) : ¬ f.Incomplete := by
  obtain ⟨element, hagrees, hdescribes⟩ := h
  cases f with
  | refused =>
    have hrefused : newReading element.1 = none := hagrees
    rw [newReading_described hdescribes] at hrefused
    cases hrefused
  | passedOver => exact fun h => h
  | taken v =>
    obtain ⟨v₀, ts, hnew, rfl, hcontent⟩ := hagrees
    obtain rfl := Option.some.inj ((newReading_described hdescribes).symm.trans hnew)
    obtain ⟨addr, haddr, hremAddr⟩ := remAddr_described hdescribes
    obtain ⟨use, huse, hhmi⟩ := hmi_described hdescribes
    rw [hcontent] at haddr huse
    have hflags := (@complete_readAll_iff { uiId := x.uiId, strFr := x.strFr } rfl rfl ts).mpr
      ⟨⟨use, mem_of_content huse, hhmi⟩, addr, mem_of_content haddr, hremAddr⟩
    intro hincomplete
    rw [Fate.Incomplete, hflags] at hincomplete
    cases hincomplete

/-- What is read of an element has its ID and its kind. -/
theorem Linked.same {f : Fate} {x y : VarXml} (h : Linked f x) (hy : f.xml = some y) :
    y.uiId = x.uiId ∧ y.strFr = x.strFr := by
  obtain ⟨element, hagrees, hdescribes⟩ := h
  cases f with
  | refused => cases hy
  | passedOver => cases hy
  | taken v =>
    obtain rfl := Option.some.inj hy
    obtain ⟨v₀, ts, hnew, rfl, _⟩ := hagrees
    obtain rfl := Option.some.inj ((newReading_described hdescribes).symm.trans hnew)
    exact readAll_kept _ ts

def regVar (x : VarXml) : RegVar := ⟨x.uiId, x.tAddr⟩

def insertAll {K V : Type} [DecidableEq K] (m es : List (K × V)) : List (K × V) :=
  es.foldl (fun m e => insertKey m e.1 e.2) m

section Insert
variable (p : Parsed) {y : VarXml} (hy : y.strUse ≠ .NO)
include hy

theorem tableOf_insertXml (fr : Fr) :
    tableOf (insertXml p y) fr =
      if y.strFr = fr then insertKey (tableOf p fr) y.uiId (regVar y) else tableOf p fr := by
  obtain ⟨uiId, strFr, strUse, tAddr⟩ := y
  cases strUse with
  | NO => exact absurd rfl hy
  | WO => cases strFr <;> cases fr <;> rfl
  | RW => cases strFr <;> cases fr <;> rfl

end Insert

section InsertAll
variable {ys : List VarXml} (hys : ∀ y ∈ ys, y.strUse ≠ .NO)
include hys

theorem tableOf_insertXmls (p : Parsed) (fr : Fr) :
    tableOf (ys.foldl insertXml p) fr =
      insertAll (tableOf p fr)
        ((ys.filter (fun y => y.strFr = fr)).map (fun y => (y.uiId, regVar y))) := by
  induction ys generalizing p with
  | nil => rfl
  | cons y ys ih =>
    rw [List.forall_mem_cons] at hys
    rw [List.foldl_cons, ih hys.2, tableOf_insertXml p hys.1, List.filter_cons]
    by_cases hfr : y.strFr = fr
    · rw [if_pos hfr, if_pos (decide_eq_true hfr)]
      rfl
    · rw [if_neg hfr, if_neg (by simpa using hfr)]

end InsertAll

section NoVars
variable {ys : List VarXml} (hys : ∀ y ∈ ys, y.strUse ≠ .NO)
include hys

theorem lookup_table (ids : (ys.map VarXml.uiId).Nodup) (fr : Fr) (id : BitVec 32) (var : RegVar) :
    (tableOf (ys.foldl insertXml noVars) fr).lookup id = some var ↔
      ∃ y ∈ ys, y.strFr = fr ∧ y.uiId = id ∧ var = regVar y := by
  have hempty : tableOf noVars fr = [] := by cases fr <;> rfl
  have hdistinct : ((ys.filter (fun y => y.strFr = fr)).map VarXml.uiId).Nodup :=
    ids.sublist (List.filter_sublist.map VarXml.uiId)
  rw [tableOf_insertXmls hys, hempty, insertAll, lookup_insertAll_nil regVar hdistinct]
  simp only [List.mem_filter, decide_eq_true_eq, and_assoc]

end NoVars

section Paired
variable {fs : List Fate} {xs : List VarXml}

theorem Matches.reading {f : Fate} {x y : VarXml} (h : Matches f x) (hy : f.xml = some y) :
    y.tAddr = x.tAddr ∧ (y.strUse = .RW ↔ x.strUse = .RW) := by
  cases f with
  | refused => cases hy
  | passedOver => cases hy
  | taken v =>
    obtain rfl := Option.some.inj hy
    obtain ⟨haddr, _, huse⟩ := h
    refine ⟨haddr, ?_⟩
    rw [← huse]
    cases v.strUse <;> simp

end Paired

end RegInfoFile
