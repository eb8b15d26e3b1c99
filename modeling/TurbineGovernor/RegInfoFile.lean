import TurbineGovernor.StartUp
import TurbineGovernor.DecimalTexts

/-!
# The tokens of the IO information file

`RegImage::parseRegIOInfo` reads the variables in two loops over one stream of
tokens. The inner one does not see where its element ends: it goes on until it
has an address and a use, and takes one more token. What it makes of each `Var`
is compared with what stands inside that element.
-/

namespace RegInfoFile
open CommonTypes KeyedTables HmiImage StartUp DecimalTexts

abbrev Attributes : Type := List (String × Text)

inductive XmlToken where
  | startElement (name : String) (attributes : Attributes)
  | endElement
  | other

/-- The tokens before `Invalid`, which is also the token of an error. -/
structure TokenStream where
  tokens : List XmlToken
  error : Bool

/-- The element that is found, and what follows its token. -/
def readNextStartElement : List XmlToken → Option (String × List XmlToken)
  | [] => none
  | .endElement :: _ => none
  | .startElement name _ :: ts => some (name, ts)
  | .other :: ts => readNextStartElement ts

def frOf (strFr : Text) : Option Fr :=
  if strFr = ['F'] then some .F else if strFr = ['R'] then some .R else none

def useOf (strUse : Text) : Option Use :=
  if strUse = ['N', 'O'] then some .NO
  else if strUse = ['W', 'O'] then some .WO
  else if strUse = ['R', 'W'] then some .RW
  else none

/-- The element that `parseXmlVar` is called for. -/
def XmlToken.varAttributes : XmlToken → Option Attributes
  | startElement name attributes => if name = "Var" then some attributes else none
  | _ => none

def remAddrOf (attributes : Attributes) : Option (BitVec 8 × BitVec 8 × BitVec 8) :=
  match attributes.lookup "Head", attributes.lookup "Mod", attributes.lookup "Ch" with
  | some head, some mod, some ch =>
    some ((toUInt head).setWidth 8, (toUInt mod).setWidth 8, (toUInt ch).setWidth 8)
  | _, _, _ => none

/-- What the loop of `parseXmlVar` makes of a token. -/
def XmlToken.inVar : XmlToken → Token
  | startElement name attributes =>
    if name = "HMI" then .hmi ((attributes.lookup "Use").map useOf)
    else if name = "RemAddr" then .remAddr (remAddrOf attributes)
    else .other
  | _ => .other

def varOf (attributes : Attributes) : Option (BitVec 32 × Option Fr) :=
  match attributes.lookup "ID", attributes.lookup "FR" with
  | some id, some fr => some (toUInt id, frOf fr)
  | _, _ => none

/-- The beginning of `parseXmlVar`; `none` is an error. -/
def newReading (attributes : Attributes) : Option VarReading :=
  match varOf attributes with
  | some (uiId, some strFr) => some { uiId := uiId, strFr := strFr }
  | _ => none

def deleteRegVars (p : Parsed) : Parsed := { p with vars := RegVars.empty }

def complete (v : VarReading) : Bool := v.bUseReaded && v.bAddrReaded

/-- The loop of `parseRegIOInfo`, or that of `parseXmlVar` for the variable in
hand, which takes a token before it looks at its flags. -/
def readVars : Option VarReading → Parsed → List XmlToken → Bool × Parsed
  | none, p, [] => (true, p)
  | some v, p, [] =>
    match v.finish p with
    | some p => (true, p)
    | none => (false, deleteRegVars p)
  | none, p, t :: ts =>
    match t.varAttributes with
    | none => readVars none p ts
    | some attributes =>
      match newReading attributes with
      | some v => readVars (some v) p ts
      | none => (false, deleteRegVars p)
  | some v, p, t :: ts =>
    if complete v then
      match v.finish p with
      | some p => readVars none p ts
      | none => (false, deleteRegVars p)
    else readVars (some (v.read t.inVar)) p ts

/-- The tokens after that of `Vars`, when it is the first child of `RegIOInfo`. -/
def afterVars (tokens : List XmlToken) : Option (List XmlToken) :=
  match readNextStartElement tokens with
  | none => none
  | some (root, ts) =>
    if root = "RegIOInfo" then
      match readNextStartElement ts with
      | none => none
      | some (child, ts) => if child = "Vars" then some ts else none
    else none

def noVars : Parsed := ⟨RegVars.empty, ∅, ∅⟩

/-- `RegImage::parseRegIOInfo` of a file that can be opened. -/
def parseRegIOInfo (s : TokenStream) : Bool × Parsed :=
  match afterVars s.tokens with
  | some ts => readVars none noVars ts
  | none => (false, deleteRegVars noVars)

section Steps
variable {v v' : VarReading} {p p' : Parsed} {t : XmlToken} {attributes : Attributes}

theorem readVars_other (h : t.varAttributes = none) (p : Parsed) (ts : List XmlToken) :
    readVars none p (t :: ts) = readVars none p ts := by
  rw [readVars]
  simp only [h]

theorem readVars_refused (h : t.varAttributes = some attributes)
    (hnew : newReading attributes = none) (p : Parsed) (ts : List XmlToken) :
    readVars none p (t :: ts) = (false, deleteRegVars p) := by
  rw [readVars]
  simp only [h, hnew]

theorem readVars_var (h : t.varAttributes = some attributes) (hnew : newReading attributes = some v)
    (p : Parsed) (ts : List XmlToken) :
    readVars none p (t :: ts) = readVars (some v) p ts := by
  rw [readVars]
  simp only [h, hnew]

theorem readVars_read (h : complete v = false) (p : Parsed) (t : XmlToken) (ts : List XmlToken) :
    readVars (some v) p (t :: ts) = readVars (some (v.read t.inVar)) p ts := by
  rw [readVars]
  simp only [h, Bool.false_eq_true, if_false]

theorem readVars_finished (h : complete v = true) (hfinish : v.finish p = some p') (t : XmlToken)
    (ts : List XmlToken) : readVars (some v) p (t :: ts) = readVars none p' ts := by
  rw [readVars]
  simp only [h, hfinish, if_true]

theorem readVars_rejected (h : complete v = true) (hfinish : v.finish p = none) (t : XmlToken)
    (ts : List XmlToken) : readVars (some v) p (t :: ts) = (false, deleteRegVars p) := by
  rw [readVars]
  simp only [h, hfinish, if_true]

end Steps

/-- A token as the start-up of the HMI has it. -/
def XmlToken.token (t : XmlToken) : Token :=
  match t.varAttributes with
  | some attributes => .var (varOf attributes)
  | none => t.inVar

theorem inVar_of_var {t : XmlToken} {attributes : Attributes}
    (h : t.varAttributes = some attributes) : t.inVar = .other := by
  cases t with
  | startElement name attributes' =>
    simp only [XmlToken.varAttributes] at h
    split at h
    · rename_i hname
      subst hname
      rfl
    · cases h
  | endElement => cases h
  | other => cases h

theorem read_token (v : VarReading) (t : XmlToken) : v.read t.token = v.read t.inVar := by
  cases hvar : t.varAttributes with
  | none => rw [XmlToken.token, hvar]
  | some attributes =>
    rw [XmlToken.token, hvar, inVar_of_var hvar]
    rfl

theorem readTokens_other {t : XmlToken} (h : t.varAttributes = none) (p : Parsed)
    (ts : List Token) :
    readTokens none p (t.token :: ts) = readTokens none p ts := by
  rw [XmlToken.token, h]
  cases t with
  | startElement name attributes =>
    simp only [XmlToken.inVar]
    split
    · rfl
    · split <;> rfl
  | endElement => rfl
  | other => rfl

/-- The reading of the start-up is this one, without the tables of a failure. -/
theorem readTokens_eq (reading : Option VarReading) (p : Parsed) (ts : List XmlToken) :
    readTokens reading p (ts.map XmlToken.token) =
      if (readVars reading p ts).1 then some (readVars reading p ts).2 else none := by
  induction ts generalizing reading p with
  | nil =>
    cases reading with
    | none => rfl
    | some v =>
      rw [List.map_nil, readTokens, readVars]
      cases v.finish p <;> rfl
  | cons t ts ih =>
    rw [List.map_cons]
    cases reading with
    | none =>
      cases hvar : t.varAttributes with
      | none =>
        rw [readTokens_other hvar, readVars_other hvar]
        exact ih none p
      | some attributes =>
        rcases hof : varOf attributes with _ | ⟨uiId, _ | strFr⟩
        · have hnew : newReading attributes = none := by rw [newReading, hof]
          rw [readVars_refused hvar hnew, XmlToken.token, hvar]
          simp only [hof]
          rfl
        · have hnew : newReading attributes = none := by rw [newReading, hof]
          rw [readVars_refused hvar hnew, XmlToken.token, hvar]
          simp only [hof]
          rfl
        · have hnew : newReading attributes = some { uiId := uiId, strFr := strFr } := by
            rw [newReading, hof]
          rw [readVars_var hvar hnew, XmlToken.token, hvar]
          simp only [hof]
          exact ih _ p
    | some v =>
      rw [readTokens, read_token]
      cases hcomplete : complete v with
      | false =>
        have hflags : (v.bUseReaded && v.bAddrReaded) = false := hcomplete
        rw [readVars_read hcomplete, hflags, if_neg Bool.false_ne_true]
        exact ih _ p
      | true =>
        have hflags : (v.bUseReaded && v.bAddrReaded) = true := hcomplete
        rw [hflags, if_pos rfl]
        cases hfinish : v.finish p with
        | none =>
          rw [readVars_rejected hcomplete hfinish]
          rfl
        | some p' =>
          rw [readVars_finished hcomplete hfinish]
          exact ih none p'

/-- The file of the start-up, its tokens taken from the stream. -/
theorem startUp_parseRegIOInfo (s : TokenStream) :
    StartUp.parseRegIOInfo ((afterVars s.tokens).map (List.map XmlToken.token)) =
      if (parseRegIOInfo s).1 then some (parseRegIOInfo s).2 else none := by
  rw [parseRegIOInfo]
  cases afterVars s.tokens with
  | none => rfl
  | some ts => exact readTokens_eq none noVars ts

/-- The tokens up to the end of an element, `depth` elements further in. -/
def content : Nat → List XmlToken → List XmlToken
  | _, [] => []
  | depth, .startElement name attributes :: ts =>
    .startElement name attributes :: content (depth + 1) ts
  | 0, .endElement :: _ => []
  | depth + 1, .endElement :: ts => .endElement :: content depth ts
  | depth, .other :: ts => .other :: content depth ts

/-- Every `Var` element, wherever it stands. -/
def varElements : List XmlToken → List (Attributes × List XmlToken)
  | [] => []
  | t :: ts =>
    match t.varAttributes with
    | some attributes => (attributes, content 0 ts) :: varElements ts
    | none => varElements ts

def writtenByte (attributes : Attributes) (name : String) : Option (BitVec 8) :=
  (attributes.lookup name).bind (fun text => (writtenBelow (2 ^ 8) text).map (BitVec.ofInt 8))

/-- A `RemAddr` with these attributes writes the address. -/
structure WritesAddr (attributes : Attributes) (tAddr : IOAddr) : Prop where
  head : writtenByte attributes "Head" = some tAddr.uiHeader
  mod : writtenByte attributes "Mod" = some tAddr.uiModule
  ch : writtenByte attributes "Ch" = some tAddr.uiChannel
  numBits : tAddr.uiNumBits = 0

/-- A `Var` element with a variable that it can be said to describe. Only the parts
of the address are bounded; an ID is what `toUInt` makes of it. -/
structure Describes (element : Attributes × List XmlToken) (x : VarXml) : Prop where
  id : (element.1.lookup "ID").map toUInt = some x.uiId
  fr : (element.1.lookup "FR").bind frOf = some x.strFr
  use : ∃ attributes, .startElement "HMI" attributes ∈ element.2 ∧
    (attributes.lookup "Use").bind useOf = some x.strUse
  addr : ∃ attributes, .startElement "RemAddr" attributes ∈ element.2 ∧
    WritesAddr attributes x.tAddr

/-- The table of the variables of one kind. -/
def tableOf (p : Parsed) : Fr → List (BitVec 32 × RegVar)
  | .F => p.vars.mumFieldVars
  | .R => p.vars.mumSlaveVars

def toUpdate (p : Parsed) : Fr → Finset IOAddr
  | .F => p.fieldVarsToUpdate
  | .R => p.slaveVarsToUpdate

/-- The tables and the sets are those of the variables. -/
structure Holds (p : Parsed) (xs : List VarXml) : Prop where
  table : ∀ fr id var, (tableOf p fr).lookup id = some var ↔
    ∃ x ∈ xs, x.strUse ≠ .NO ∧ x.strFr = fr ∧ x.uiId = id ∧ var = ⟨x.uiId, x.tAddr⟩
  vars : ∀ x ∈ xs, x.strUse ≠ .NO → p.vars.mumVars.lookup x.tAddr = some ⟨x.uiId, x.tAddr⟩
  update : ∀ fr tAddr, tAddr ∈ toUpdate p fr ↔
    ∃ x ∈ xs, x.strUse = .RW ∧ x.strFr = fr ∧ x.tAddr = tAddr

/-- The reading of a variable, over what follows its token. -/
def readAll (v : VarReading) : List XmlToken → VarReading
  | [] => v
  | t :: ts => if complete v then v else readAll (v.read t.inVar) ts

/-- What becomes of a `Var` element: its attributes are refused, it is passed over
in the reading of another, or it is read. -/
inductive Fate where
  | refused
  | passedOver
  | taken (v : VarReading)

/-- The `Var` elements in order, from the loop of `parseRegIOInfo` or from the
reading of a variable. -/
def fates : Option VarReading → List XmlToken → List Fate
  | _, [] => []
  | none, t :: ts =>
    match t.varAttributes with
    | none => fates none ts
    | some attributes =>
      match newReading attributes with
      | some v => .taken (readAll v ts) :: fates (some v) ts
      | none => .refused :: fates none ts
  | some v, t :: ts =>
    let next := if complete v then none else some (v.read t.inVar)
    match t.varAttributes with
    | some _ => .passedOver :: fates next ts
    | none => fates next ts

namespace Fate

/-- Something that is needed is missing. -/
def Incomplete : Fate → Prop
  | refused => True
  | passedOver => False
  | taken v => complete v = false

def SaysNO : Fate → Prop
  | taken v => v.strUse = some .NO
  | _ => False

def Accepted (f : Fate) : Prop := ¬ f.Incomplete ∧ ¬ f.SaysNO

/-- A use that is not known counts as one that is not polled. -/
def xml : Fate → Option VarXml
  | taken v => some ⟨v.uiId, v.strFr, v.strUse.getD .WO, v.tAddr⟩
  | _ => none

end Fate

/-- The fate of the element of a variable is to be read as it is, or to be passed
over and not needed. -/
def Matches : Fate → VarXml → Prop
  | .taken v, x => v.tAddr = x.tAddr ∧ x.strUse ≠ .NO ∧ (v.strUse = some .RW ↔ x.strUse = .RW)
  | .passedOver, x => x.strUse = .NO
  | .refused, _ => False

def insertXml (p : Parsed) (x : VarXml) : Parsed :=
  let r := p.vars.parseXmlVar p.slaveVarsToUpdate p.fieldVarsToUpdate x
  ⟨r.1, r.2.1, r.2.2⟩

/-- The result of the loops, for the elements that are still to be dealt with. -/
structure Outcome (p : Parsed) (fs : List Fate) (r : Bool × Parsed) : Prop where
  accepted : (∀ f ∈ fs, f.Accepted) → r = (true, (fs.filterMap Fate.xml).foldl insertXml p)
  rejected : (¬ ∀ f ∈ fs, f.Accepted) → r.1 = false ∧ r.2.vars = RegVars.empty

theorem Outcome.cons {p p' : Parsed} {f : Fate} {fs : List Fate} {r : Bool × Parsed}
    (h : Outcome p' fs r) (hf : f.Accepted)
    (hp : (f.xml.toList).foldl insertXml p = p') : Outcome p (f :: fs) r := by
  constructor
  · intro hall
    rw [h.accepted (fun f' hf' => hall f' (List.mem_cons_of_mem _ hf')), ← hp, List.filterMap_cons]
    cases f.xml with
    | none => rfl
    | some x => rfl
  · intro hnot
    refine h.rejected (fun hall => hnot ?_)
    rw [List.forall_mem_cons]
    exact ⟨hf, hall⟩

theorem accepted_passedOver : Fate.passedOver.Accepted := ⟨fun h => h, fun h => h⟩

/-- An element that is passed over makes no difference. -/
theorem Outcome.passedOver {p : Parsed} {f : Fate} {fs : List Fate} {r : Bool × Parsed}
    (h : Outcome p (f :: fs) r) : Outcome p (f :: .passedOver :: fs) r := by
  have hall : (∀ f' ∈ f :: .passedOver :: fs, f'.Accepted) ↔ ∀ f' ∈ f :: fs, f'.Accepted := by
    simp only [List.forall_mem_cons]
    exact and_congr_right (fun _ => and_iff_right accepted_passedOver)
  have hxml : (f :: .passedOver :: fs).filterMap Fate.xml = (f :: fs).filterMap Fate.xml := by
    rw [List.filterMap_cons, List.filterMap_cons]
    rfl
  constructor
  · rw [hall, hxml]
    exact h.accepted
  · rw [hall]
    exact h.rejected

/-- The elements that are left, with the one in hand. -/
def pending : Option VarReading → List XmlToken → List Fate
  | none, ts => fates none ts
  | some v, ts => .taken (readAll v ts) :: fates (some v) ts

end RegInfoFile
