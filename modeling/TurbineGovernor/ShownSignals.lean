import TurbineGovernor.OperatorDesk
import TurbineGovernor.WindowViews
import TurbineGovernor.AlarmsDisplay

/-!
# The signals that the window has been told

The pages are connected to the two signals of `RegImage`. In every run, with
whatever the operator does in between, the window shows the last signal of each
variable and of each word of the alarms.
-/

namespace ShownSignals
open CommonTypes TransitionRuns MasterDriver HmiImage ChangeNotification WordLayout StartUp
open RegulatorAlarms AlarmsDisplay WindowViews
open ControlPanel (RangedImage)
open OperatorDesk (getCurrentVal reported Declared signal_declared step_cases)

variable {Q : Type}

/-- The image of the HMI and the pages connected to it. -/
structure Window (Q : Type) where
  hmi : Hmi Q
  views : Views
  alarms : AlarmsWdg Config.regulator

/-- The window is shown by `allVarsUpdated`. -/
def Window.shown (w : Window Q) : Bool := decide (w.hmi.allVarsUpdated ≠ 0)

inductive Event where
  | image (l : ChangeNotification.Label)
  | act (action : Action)

section Machine
variable (img : RangedImage) (t : Texts)

def receive (w : Window Q) : Option Signal → Window Q
  | some (.varChanged var) =>
    { w with views := w.views.varChanged img var.muiVarId (getCurrentVal var) }
  | some (.roIntChanged val intID) =>
    { w with alarms := w.alarms.roIntChanged t val (intID.setWidth 32) }
  | none => w

/-- A signal reaches the pages before `newVarUpdated` counts it. -/
def step (w : Window Q) : Event → Window Q
  | .image l => { receive img t w (reported w.hmi.system l) with hmi := w.hmi.step l }
  | .act action => if w.shown then { w with views := w.views.act img action } else w

/-- What the threads of the image and of the driver do in a run. -/
def labels (es : List Event) : List ChangeNotification.Label :=
  es.filterMap (fun e => match e with
    | .image l => some l
    | .act _ => none)

theorem labels_append (es es' : List Event) : labels (es ++ es') = labels es ++ labels es' :=
  List.filterMap_append

theorem hmi_run (w : Window Q) (es : List Event) :
    (run (step img t) w es).hmi = run Hmi.step w.hmi (labels es) := by
  induction es generalizing w with
  | nil => rfl
  | cons e es ih =>
    rw [run_cons, ih]
    cases e with
    | image l => rfl
    | act action =>
      simp only [step]
      split <;> rfl

end Machine

/-- `RegImage` does not act on the driver but through its own steps. -/
theorem system_step (h : Hmi Q) (l : ChangeNotification.Label) :
    (h.step l).system = h.system.step l := by
  cases l with
  | read tAddr =>
    simp only [Hmi.step]
    split
    · exact (OperatorDesk.newVarUpdated_keeps _ tAddr).1
    · rfl
  | _ => rfl

theorem system_run (h : Hmi Q) (ls : List ChangeNotification.Label) :
    (run Hmi.step h ls).system = run System.step h.system ls := by
  induction ls generalizing h with
  | nil => rfl
  | cons l ls ih => rw [run_cons, run_cons, ih, system_step]

/-- No variable of the file is taken for an RO int. -/
def Apart (p : Parsed) : Prop :=
  ∀ tAddr ∈ p.slaveVarsToUpdate, counts.total < tAddr.uiChannel.toNat

section Words
variable {p : Parsed} {NumROInts NumIOVars : BitVec 32} {h : Hmi Q}

/-- What is read as an RO int has a channel of the words and is polled. -/
theorem roInt_of_signal {s : System Q} {a : IOAddr}
    (image : s.image = ⟨p.vars, BitVec.ofNat 32 counts.total⟩) {rec : Record}
    (hrec : s.recordAt s.driver a = some rec) {mtDrvState : DrvState} {val : BitVec 32}
    {intID : BitVec 8} (hsignal : rec.signal mtDrvState a = .roIntChanged val intID) :
    intID = a.uiChannel ∧ 1 ≤ a.uiChannel.toNat ∧ a.uiChannel.toNat ≤ counts.total ∧
      a ∈ s.driver.mModbusVars.map Prod.fst := by
  simp only [System.recordAt, record, image, isROInt_iff] at hrec
  split at hrec
  · rename_i hlow
    obtain ⟨data, hdata, rfl⟩ := Option.map_eq_some_iff.mp hrec
    simp only [Record.signal, Signal.roIntChanged.injEq] at hsignal
    exact ⟨hsignal.2.symm, hlow.1, hlow.2,
      List.mem_map_of_mem (KeyedTables.mem_of_lookup hdata)⟩
  · split at hrec
    · cases hrec
    split at hrec
    · obtain rfl := Option.some.inj hrec
      cases hsignal
    · obtain ⟨data, _, rfl⟩ := Option.map_eq_some_iff.mp hrec
      cases hsignal

/-- The words have their addresses for themselves. -/
theorem address_of_low (hinit : Initial p NumROInts NumIOVars h) (apart : Apart p) {a : IOAddr}
    (hmem : a ∈ h.system.driver.mModbusVars.map Prod.fst)
    (hlow : a.uiChannel.toNat ≤ counts.total) : a = channelAddr a.uiChannel.toNat := by
  obtain ⟨hslave, _⟩ := (hinit.modbus a).mp hmem
  rcases Finset.mem_union.mp hslave with hfile | hword
  · have hhigh := apart a hfile
    omega
  · obtain ⟨i, _, hi, rfl⟩ := (mem_usSlaveVarsToUpdate counts a).mp (List.mem_toFinset.mp hword)
    have htotal : counts.total = 4 := by decide
    rw [toNat_channelAddr (by omega)]

end Words

/-- The last signal of a declared variable and of a word is what is shown. -/
structure Told (p : Parsed) (t : Texts) (h₀ : Hmi Q) (w : Window Q) : Prop where
  counting : Counting h₀ w.hmi
  reported : ∀ tAddr, w.hmi.system.emitted tAddr ≠ none → tAddr ∈ w.hmi.reported
  vars : ∀ uiID tAddr, Declared p uiID tAddr → ∀ var,
    w.hmi.system.emitted tAddr = some (.varChanged var) → w.views.Shows uiID (getCurrentVal var)
  words : ∀ i, 1 ≤ i → i ≤ counts.total → ∀ val intID,
    w.hmi.system.emitted (channelAddr i) = some (.roIntChanged val intID) →
      ShowsWord t w.alarms (BitVec.ofNat 32 i) val

section Told
variable {img : RangedImage} {t : Texts} {p : Parsed} {NumROInts NumIOVars : BitVec 32}
  {h₀ : Hmi Q} {w : Window Q}

theorem Told.read (told : Told p t h₀ w) (hinit : Initial p NumROInts NumIOVars h₀)
    (apart : Apart p) (l : ChangeNotification.Label) :
    Told p t h₀ (step img t w (.image l)) := by
  have hcounting := told.counting.step l
  have himage := told.counting.tables.image.trans hinit.image
  rcases step_cases w.hmi l with
    ⟨hnone, hemitted, hreported⟩ | ⟨a, rec, hrec, hsome, hemitted, hreported⟩
  · refine ⟨hcounting, ?_, ?_, ?_⟩
    · simp only [step, hnone, receive, hemitted, hreported]
      exact told.reported
    · simp only [step, hnone, receive, hemitted]
      exact told.vars
    · simp only [step, hnone, receive, hemitted]
      exact told.words
  have hkeys := told.counting.tables.modbus
  have hreports : ∀ tAddr, (w.hmi.step l).system.emitted tAddr ≠ none →
      tAddr ∈ (w.hmi.step l).reported := by
    intro tAddr hne
    rw [hreported, Finset.mem_insert]
    by_cases heq : tAddr = a
    · exact Or.inl heq
    · rw [hemitted, Function.update_of_ne heq] at hne
      exact Or.inr (told.reported tAddr hne)
  cases hsignal : rec.signal w.hmi.system.driver.mtDrvState a with
  | varChanged var =>
    rw [hsignal] at hsome hemitted
    refine ⟨hcounting, hreports, ?_, ?_⟩
    · intro uiID tAddr declared var' hvar'
      have hid := (signal_declared declared himage _ hrec).1 var hsignal
      simp only [step, hemitted, hsome, receive] at hvar' ⊢
      by_cases heq : a = tAddr
      · rw [heq, Function.update_self] at hvar'
        rw [← Signal.varChanged.inj (Option.some.inj hvar'), hid.mpr heq]
        exact (views_follow img).shown w.views uiID (getCurrentVal var)
      · rw [Function.update_of_ne (Ne.symm heq)] at hvar'
        exact (views_follow img).kept (told.vars uiID tAddr declared var' hvar')
          (fun hsame => heq (hid.mp hsame)) (getCurrentVal var)
    · intro i hlow hhigh val intID hword
      simp only [step, hemitted, hsome, receive] at hword ⊢
      refine told.words i hlow hhigh val intID ?_
      by_cases heq : channelAddr i = a
      · rw [heq, Function.update_self] at hword
        cases hword
      · rwa [Function.update_of_ne heq] at hword
  | roIntChanged val intID =>
    rw [hsignal] at hsome hemitted
    obtain ⟨rfl, hpos, hlast, hmem⟩ := roInt_of_signal himage hrec hsignal
    rw [hkeys] at hmem
    have ha := address_of_low hinit apart hmem hlast
    refine ⟨hcounting, hreports, ?_, ?_⟩
    · intro uiID tAddr declared var' hvar'
      simp only [step, hemitted, hsome, receive] at hvar' ⊢
      refine told.vars uiID tAddr declared var' ?_
      by_cases heq : tAddr = a
      · rw [heq, Function.update_self] at hvar'
        cases hvar'
      · rwa [Function.update_of_ne heq] at hvar'
    · intro i hlow hhigh val' intID' hword
      have htotal : counts.total = 4 := by decide
      simp only [step, hemitted, hsome, receive] at hword ⊢
      by_cases heq : channelAddr i = a
      · have hi : (a.uiChannel.setWidth 32 : BitVec 32) = BitVec.ofNat 32 i := by
          apply BitVec.eq_of_toNat_eq
          rw [← heq, BitVec.toNat_setWidth, toNat_channelAddr (by omega), BitVec.toNat_ofNat]
        rw [heq, Function.update_self] at hword
        rw [← (Signal.roIntChanged.inj (Option.some.inj hword)).1, hi]
        exact (words_follow t).shown w.alarms _ val
      · rw [Function.update_of_ne heq] at hword
        refine (words_follow t).kept (told.words i hlow hhigh val' intID' hword) ?_ val
        intro hsame
        apply heq
        have hnat := congrArg BitVec.toNat hsame
        rw [BitVec.toNat_setWidth, BitVec.toNat_ofNat, Nat.mod_eq_of_lt (by omega),
          Nat.mod_eq_of_lt (by omega)] at hnat
        rw [ha, hnat]

theorem Told.step (told : Told p t h₀ w) (hinit : Initial p NumROInts NumIOVars h₀)
    (apart : Apart p) (e : Event) : Told p t h₀ (step img t w e) := by
  cases e with
  | image l => exact told.read hinit apart l
  | act action =>
    simp only [ShownSignals.step]
    split
    · exact ⟨told.counting, told.reported,
        fun uiID tAddr declared var hvar =>
          act_shows img (told.vars uiID tAddr declared var hvar) action, told.words⟩
    · exact told

/-- Whatever the memory of the pages. -/
theorem told_run (hinit : Initial p NumROInts NumIOVars h₀) (apart : Apart p)
    (silent : ∀ tAddr, h₀.system.emitted tAddr = none) (views : Views)
    (alarms : AlarmsWdg Config.regulator) (es : List Event) :
    Told p t h₀ (run (ShownSignals.step img t) ⟨h₀, views, alarms⟩ es) := by
  refine run_invariant' (fun _ e told => told.step hinit apart e) ?_ es
  refine ⟨hinit.counting [], fun tAddr hne => absurd (silent tAddr) hne, ?_, ?_⟩
  · intro uiID tAddr _ var hvar
    rw [silent] at hvar
    cases hvar
  · intro i _ _ val intID hword
    rw [silent] at hword
    cases hword

end Told

end ShownSignals
