import TurbineGovernor.RegulatorImage

/-!
# Forced values override the control

Each field output is handed to the field driver with the value that its coil
chooses, while the true value of the control is published. The coils and the
registers of the forced values belong to the masters: nothing that the
regulator does after `init` changes them.
-/

namespace ForceOverride
open CommonTypes ByteOrder SlaveDriver SlaveDriver.ModbusSlaveDrv RegisterMap TransitionRuns
open TableBounds (Rejects write_rejected write_accepted updateFieldVar_unknown
  updateFieldVar_rejected updateFieldVar_accepted writeRO_rejected writeRO_accepted forcedVar)
open RegulatorImage RegulatorImage.IOImage
open RegulatorAlarms (AlarmManager)

/-- The registers of a variable are four: the last two are the forced value. -/
structure SameForcing (s s' : ModbusSlaveDrv) : Prop where
  coils : s'.mpMBmapping.tabBits = s.mpMBmapping.tabBits
  values : ∀ i, 2 ≤ i % 4 → s'.mpMBmapping.tabRegisters i = s.mpMBmapping.tabRegisters i

/-- Nor does a call change the configuration or the state. -/
structure Steady (s s' : ModbusSlaveDrv) : Prop extends SameForcing s s' where
  ioVars : s'.muiNumIOVars = s.muiNumIOVars
  roInts : s'.muiNumROInts = s.muiNumROInts
  fieldVars : s'.mFieldVars = s.mFieldVars
  state : s'.mtDrvState = s.mtDrvState

theorem SameForcing.refl (s : ModbusSlaveDrv) : SameForcing s s := ⟨rfl, fun _ _ => rfl⟩

theorem SameForcing.trans {s s' s'' : ModbusSlaveDrv} (h : SameForcing s s')
    (h' : SameForcing s' s'') : SameForcing s s'' :=
  ⟨h'.coils.trans h.coils, fun i hi => (h'.values i hi).trans (h.values i hi)⟩

theorem Steady.refl (s : ModbusSlaveDrv) : Steady s s := ⟨.refl s, rfl, rfl, rfl, rfl⟩

theorem Steady.trans {s s' s'' : ModbusSlaveDrv} (h : Steady s s') (h' : Steady s' s'') :
    Steady s s'' :=
  ⟨h.toSameForcing.trans h'.toSameForcing, h'.ioVars.trans h.ioVars, h'.roInts.trans h.roInts,
    h'.fieldVars.trans h.fieldVars, h'.state.trans h.state⟩

variable (L : FloatAbcd)

/-- The registers of a variable start at a multiple of four. -/
theorem valAddr_hr (uiVar : BitVec 8) :
    (valAddr HROFFSET uiVar).toNat % 4 = 0 ∧ (valAddr HROFFSET uiVar).toNat + 4 ≤ 2 ^ 16 := by
  have hvar := uiVar.isLt
  simp only [valAddr, HROFFSET, BitVec.toNat_sub, BitVec.toNat_mul, BitVec.toNat_setWidth,
    BitVec.toNat_ofNat]
  omega

section Calls
variable (s : ModbusSlaveDrv)

theorem steady_setCurrentVal (fVal : Single) (uiVar : BitVec 8) :
    Steady s (s.setCurrentVal L fVal uiVar) := by
  refine ⟨⟨rfl, fun i hi => ?_⟩, rfl, rfl, rfl, rfl⟩
  have hbase := (valAddr_hr uiVar).1
  apply store_outside
  simp only [List.length_cons, List.length_nil]
  omega

theorem steady_setQState (tState : QuState) (uiVar : BitVec 8) :
    Steady s (s.setQState tState uiVar) :=
  ⟨⟨rfl, fun _ _ => rfl⟩, rfl, rfl, rfl, rfl⟩

theorem steady_storeInt (base n value : Nat) : Steady s (s.storeInt base n value) :=
  ⟨⟨rfl, fun _ _ => rfl⟩, rfl, rfl, rfl, rfl⟩

theorem steady_write (var : IOVar) : Steady s (s.write L var).2 := by
  by_cases hr : Rejects s s.muiNumIOVars (s.numVar var.mtAddr)
  · rw [write_rejected L s var hr]
    exact .refl s
  · rw [write_accepted L s var hr]
    exact steady_setCurrentVal L s _ _

theorem steady_updateFieldVar (var : IOVar) : Steady s (s.updateFieldVar L var).2.2 := by
  cases hfind : s.mFieldVars.lookup var.muiVarId with
  | none =>
    rw [updateFieldVar_unknown L s var hfind]
    exact .refl s
  | some tAddr =>
    by_cases hr : Rejects s s.muiNumIOVars (s.numVar tAddr)
    · rw [updateFieldVar_rejected L s var hfind hr]
      exact .refl s
    · rw [updateFieldVar_accepted L s var hfind hr]
      -- the quality state and the time are kept in the tables of inputs
      exact ((steady_setCurrentVal L s _ _).trans (steady_setQState _ _ _)).trans
        (steady_storeInt _ _ _ _)

theorem steady_writeRO (iVal : BitVec 32) (addr : IOAddr) : Steady s (s.writeRO iVal addr).2 := by
  by_cases hr : Rejects s s.muiNumROInts addr.uiChannel
  · rw [writeRO_rejected s iVal addr hr]
    exact .refl s
  · rw [writeRO_accepted s iVal addr hr]
    exact steady_storeInt s _ _ _

theorem sameForcing_call (call : TableBounds.Call) :
    SameForcing s (TableBounds.step L s call) := by
  cases call with
  | read var now => exact .refl s
  | write var => exact (steady_write L s var).toSameForcing
  | updateFieldVar var => exact (steady_updateFieldVar L s var).toSameForcing
  | writeRO iVal addr => exact (steady_writeRO s iVal addr).toSameForcing
  | setState tState => exact ⟨rfl, fun _ _ => rfl⟩

theorem sameForcing_calls (calls : List TableBounds.Call) :
    SameForcing s (run (TableBounds.step L) s calls) :=
  run_invariant' (P := SameForcing s)
    (fun s' call h => h.trans (sameForcing_call L s' call)) (.refl s) calls

theorem steady_writeAlarms (alMan : Option AlarmManager) : Steady s (writeAlarms alMan s) := by
  cases alMan with
  | none => exact .refl s
  | some al =>
    apply List.foldlRecOn (motive := Steady s)
    · exact .refl s
    · exact fun s' h it _ => h.trans (steady_writeRO s' it.2 _)

end Calls

/-- The value that the control has set last, when it was `v₀` before the run. -/
def lastSet (i : Nat) (v₀ : Single) (ls : List Label) : Single :=
  ls.foldl (fun v l => match l with
    | .setCurrentVal uiID fCurrentVal => if placeOf uiID = ⟨.fieldOut, i⟩ then fCurrentVal else v
    | _ => v) v₀

def trueVal (img : IOImage) (i : Nat) : Option Single :=
  (img.var ⟨.fieldOut, i⟩).map IOVar.mfTrueVal

theorem trueVal_eq (img : IOImage) (i : Nat) :
    trueVal img i = ((img.mFieldOut.map (Option.map IOVar.mfTrueVal))[i]?).join := by
  rw [List.getElem?_map, trueVal, IOImage.var, vars]
  cases img.mFieldOut[i]? <;> rfl

theorem trueVal_updateInputs (img : IOImage) (field : FieldDrv) (now : BitVec 64)
    (slave : ModbusSlaveDrv) (i : Nat) :
    trueVal (img.updateInputs L field now slave).1 i = trueVal img i := by
  have hkept : ∀ (var : IOVar) (slave : ModbusSlaveDrv),
      ((field.updateVar var, slave) : IOVar × ModbusSlaveDrv).1.mfTrueVal = var.mfTrueVal := by
    intro var slave
    simp only [FieldDrv.updateVar]
    split <;> rfl
  rw [trueVal_eq, trueVal_eq]
  simp only [updateInputs]
  rw [forEach_view hkept]

theorem outputField_kept (var : IOVar) (r : ModbusSlaveDrv × List FieldWrite) :
    (outputField L var r).1.mfTrueVal = var.mfTrueVal := by
  simp only [outputField, updateFieldVar]
  split
  · rfl
  · split <;> rfl

theorem trueVal_updateOutputs (img : IOImage) (alMan : Option AlarmManager)
    (slave : ModbusSlaveDrv) (i : Nat) :
    trueVal (img.updateOutputs L alMan slave).1 i = trueVal img i := by
  rw [trueVal_eq, trueVal_eq]
  simp only [updateOutputs]
  rw [forEach_view (outputField_kept L)]

theorem trueVal_modifyID (img : IOImage) (uiID : BitVec 32) (fCurrentVal : Single) {i : Nat}
    {v : Single} (h : trueVal img i = some v) :
    trueVal (img.modifyID uiID (setCurrentVal fCurrentVal)) i =
      some (if placeOf uiID = ⟨.fieldOut, i⟩ then fCurrentVal else v) := by
  rcases hplace : placeOf uiID with ⟨region, index⟩
  rw [trueVal_eq] at h ⊢
  simp only [modifyID, hplace]
  cases region with
  | fieldIn => simpa [setVars] using h
  | slaveIn => simpa [setVars] using h
  | slaveOut => simpa [setVars] using h
  | fieldOut =>
    simp only [setVars, vars, List.getElem?_map, List.getElem?_modify, Place.mk.injEq,
      true_and] at h ⊢
    by_cases hi : index = i
    · rw [if_pos hi]
      cases hslot : img.mFieldOut[i]? with
      | none => simp [hslot] at h
      | some slot =>
        cases slot with
        | none => simp [hslot] at h
        | some var => simp [hi, RegulatorImage.setCurrentVal]
    · simpa [hi] using h

theorem trueVal_run {s₀ : System} {i : Nat} {v₀ : Single} (h : trueVal s₀.img i = some v₀)
    (ls : List Label) : trueVal (run (step L) s₀ ls).img i = some (lastSet i v₀ ls) := by
  induction ls generalizing s₀ v₀ with
  | nil => exact h
  | cons l ls ih =>
    rw [run_cons, lastSet, List.foldl_cons]
    apply ih
    cases l with
    | updateInputs field now =>
      rw [step, trueVal_updateInputs]
      exact h
    | setCurrentVal uiID fCurrentVal => exact trueVal_modifyID s₀.img uiID fCurrentVal h
    | updateOutputs alMan =>
      rw [step, trueVal_updateOutputs]
      exact h
    | setState tState => exact h
    | request tables => exact h

/-- The number under which the slave keeps a field variable. -/
def channel (s : ModbusSlaveDrv) (var : IOVar) : Option (BitVec 8) :=
  match s.mFieldVars.lookup var.muiVarId with
  | none => none
  | some tAddr => if Rejects s s.muiNumIOVars (s.numVar tAddr) then none else some (s.numVar tAddr)

/-- The forced value where the coil is set, the true value otherwise. -/
def chosen (s : ModbusSlaveDrv) (uiNumVar : BitVec 8) (fTrueVal : Single) : Single :=
  if s.getForced uiNumVar then s.getForcedVal L uiNumVar else fTrueVal

/-- The call for a variable, against the tables before the loop. -/
structure Handed (s : ModbusSlaveDrv) (var : IOVar) (w : FieldWrite) (uiNumVar : BitVec 8) :
    Prop where
  accepted : channel s var = some uiNumVar
  id : w.var.muiVarId = var.muiVarId
  value : RegulatorImage.getCurrentVal w.var = chosen L s uiNumVar var.mfTrueVal
  published : w.slave.getCurrentVal L uiNumVar = var.mfTrueVal

section Outputs
variable {s s' : ModbusSlaveDrv}

theorem channel_congr (h : Steady s s') (var : IOVar) : channel s' var = channel s var := by
  have hnum : ∀ tAddr, s'.numVar tAddr = s.numVar tAddr := by
    intro tAddr
    rw [ModbusSlaveDrv.numVar, ModbusSlaveDrv.numVar, h.roInts]
  have hrejects : ∀ uiNumVar, Rejects s' s'.muiNumIOVars uiNumVar ↔
      Rejects s s.muiNumIOVars uiNumVar := by
    intro uiNumVar
    rw [Rejects, Rejects, h.ioVars, h.state]
  simp only [channel, h.fieldVars, hnum, hrejects]

theorem chosen_congr (h : SameForcing s s') (uiNumVar : BitVec 8) (fTrueVal : Single) :
    chosen L s' uiNumVar fTrueVal = chosen L s uiNumVar fTrueVal := by
  obtain ⟨hbase, hsmall⟩ := valAddr_hr uiNumVar
  have htwo : (valAddr HROFFSET uiNumVar + 2).toNat = (valAddr HROFFSET uiNumVar).toNat + 2 := by
    rw [BitVec.toNat_add]
    simp only [BitVec.ofNat_eq_ofNat, BitVec.toNat_ofNat]
    omega
  have hfirst := h.values (valAddr HROFFSET uiNumVar + 2).toNat (by omega)
  have hsecond := h.values ((valAddr HROFFSET uiNumVar + 2).toNat + 1) (by omega)
  have hforced : s'.getForced uiNumVar = s.getForced uiNumVar :=
    congrFun h.coils (valAddr COILOFFSET uiNumVar).toNat
  have hval : s'.getForcedVal L uiNumVar = s.getForcedVal L uiNumVar :=
    congrArg₂ L.getFloatAbcd hfirst hsecond
  rw [chosen, chosen, hforced, hval]

theorem lookup_of_channel {var : IOVar} {uiNumVar : BitVec 8} (h : channel s var = some uiNumVar) :
    ∃ tAddr, s.mFieldVars.lookup var.muiVarId = some tAddr ∧ s.numVar tAddr = uiNumVar ∧
      ¬ Rejects s s.muiNumIOVars uiNumVar := by
  simp only [channel] at h
  split at h
  · cases h
  · rename_i tAddr hfind
    split at h
    · cases h
    · rename_i haccepted
      obtain rfl := Option.some.inj h
      exact ⟨tAddr, hfind, rfl, haccepted⟩

theorem updateFieldVar_channel {var : IOVar} {uiNumVar : BitVec 8}
    (h : channel s var = some uiNumVar) :
    s.updateFieldVar L var = (true, forcedVar L s uiNumVar var,
      ((s.setCurrentVal L var.mfTrueVal uiNumVar).setQState
        (forcedVar L s uiNumVar var).getQState uiNumVar).setTimeS var.miTimeS uiNumVar) := by
  obtain ⟨tAddr, hfind, rfl, haccepted⟩ := lookup_of_channel h
  exact updateFieldVar_accepted L s var hfind haccepted

theorem getCurrentVal_setCurrentVal (s : ModbusSlaveDrv) (fVal : Single) (uiVar : BitVec 8) :
    (s.setCurrentVal L fVal uiVar).getCurrentVal L uiVar = fVal := by
  have hfirst := store_inside s.mpMBmapping.tabRegisters (valAddr HROFFSET uiVar).toNat
    [(L.setFloatAbcd fVal).1, (L.setFloatAbcd fVal).2] (i := 0) Nat.two_pos
  have hsecond := store_inside s.mpMBmapping.tabRegisters (valAddr HROFFSET uiVar).toNat
    [(L.setFloatAbcd fVal).1, (L.setFloatAbcd fVal).2] (i := 1) Nat.one_lt_two
  simp only [ModbusSlaveDrv.getCurrentVal, ModbusSlaveDrv.setCurrentVal]
  rw [Nat.add_zero] at hfirst
  rw [hfirst, hsecond]
  exact L.get_set fVal

/-- The quality state and the time are kept in other tables. -/
theorem getCurrentVal_setTimeS (s : ModbusSlaveDrv) (tState : QuState) (iTimeS : BitVec 64)
    (uiVar uiNumVar : BitVec 8) :
    ((s.setQState tState uiVar).setTimeS iTimeS uiVar).getCurrentVal L uiNumVar =
      s.getCurrentVal L uiNumVar := by
  rw [ModbusSlaveDrv.getCurrentVal, ModbusSlaveDrv.getCurrentVal]
  rfl

/-- Other variables keep their registers; a number of 0 is not accepted. -/
theorem getCurrentVal_other (s : ModbusSlaveDrv) (fVal : Single) {uiVar uiNumVar : BitVec 8}
    (hvar : 1 ≤ uiVar.toNat) (hnum : 1 ≤ uiNumVar.toNat) (hne : uiVar ≠ uiNumVar) :
    (s.setCurrentVal L fVal uiVar).getCurrentVal L uiNumVar = s.getCurrentVal L uiNumVar := by
  have hdiff : uiVar.toNat ≠ uiNumVar.toNat := fun heq => hne (BitVec.eq_of_toNat_eq heq)
  have hbase := valAddr_toNat hvar HROFFSET (by decide)
  have hother := valAddr_toNat hnum HROFFSET (by decide)
  simp only [HROFFSET] at hbase hother
  simp only [ModbusSlaveDrv.getCurrentVal, ModbusSlaveDrv.setCurrentVal, HROFFSET]
  rw [store_outside, store_outside] <;>
  · simp only [List.length_cons, List.length_nil]
    omega

theorem outputField_handed {var : IOVar} {uiNumVar : BitVec 8} {log : List FieldWrite}
    (h : channel s var = some uiNumVar) :
    ∃ w, (outputField L var (s, log)).2.2 = log ++ [w] ∧ Handed L s var w uiNumVar := by
  have hupdate := updateFieldVar_channel L h
  refine ⟨⟨(s.updateFieldVar L var).2.1, (s.updateFieldVar L var).2.2⟩, rfl, h, ?_, ?_, ?_⟩
  · rw [hupdate]
    rfl
  · rw [hupdate]
    rfl
  · rw [hupdate, getCurrentVal_setTimeS]
    exact getCurrentVal_setCurrentVal L s var.mfTrueVal uiNumVar

theorem Handed.congr (hsteady : Steady s s') {var : IOVar} {w : FieldWrite} {uiNumVar : BitVec 8}
    (h : Handed L s' var w uiNumVar) : Handed L s var w uiNumVar :=
  ⟨(channel_congr hsteady var).symm.trans h.accepted, h.id,
    h.value.trans (chosen_congr L hsteady.toSameForcing uiNumVar var.mfTrueVal), h.published⟩

theorem outputs_steady (vars : List (Option IOVar)) (s : ModbusSlaveDrv) (log : List FieldWrite) :
    Steady s (forEach (outputField L) vars (s, log)).2.1 :=
  forEach_kept (P := fun r : ModbusSlaveDrv × List FieldWrite => Steady s r.1)
    (fun var r h => h.trans (steady_updateFieldVar L r.1 var)) vars (.refl s)

/-- Every output is handed over once, in order, against the tables before the
loop. -/
theorem outputs_handed {vars : List (Option IOVar)}
    (configured : ∀ var ∈ vars.reduceOption, (channel s var).isSome) (log : List FieldWrite) :
    ∃ writes, (forEach (outputField L) vars (s, log)).2.2 = log ++ writes ∧
      List.Forall₂ (fun var w => ∃ uiNumVar, Handed L s var w uiNumVar)
        vars.reduceOption writes := by
  induction vars generalizing s log with
  | nil => exact ⟨[], (List.append_nil log).symm, .nil⟩
  | cons slot vars ih =>
    cases slot with
    | none => exact ih configured log
    | some var =>
      rw [List.reduceOption_cons_of_some] at configured ⊢
      obtain ⟨uiNumVar, hchannel⟩ := Option.isSome_iff_exists.mp (configured var List.mem_cons_self)
      obtain ⟨w, hlog, hw⟩ := @outputField_handed L s var uiNumVar log hchannel
      have hsteady := steady_updateFieldVar L s var
      have hrest : ∀ var' ∈ vars.reduceOption,
          (channel (s.updateFieldVar L var).2.2 var').isSome := by
        intro var' hvar'
        rw [channel_congr hsteady]
        exact configured var' (List.mem_cons_of_mem _ hvar')
      obtain ⟨writes, hwrites, hall⟩ := ih hrest (log ++ [w])
      refine ⟨w :: writes, ?_, .cons ⟨uiNumVar, hw⟩ (hall.imp ?_)⟩
      · rw [forEach, List.append_cons, ← hwrites, ← hlog]
        rfl
      · intro var' w' hhanded
        obtain ⟨n, hn⟩ := hhanded
        exact ⟨n, hn.congr L hsteady⟩

/-- The registers that the last output of a number has published stay. -/
theorem outputs_keep {uiNumVar : BitVec 8} (hpos : 1 ≤ uiNumVar.toNat) {vars : List (Option IOVar)}
    (other : ∀ var ∈ vars.reduceOption, channel s var ≠ some uiNumVar) (log : List FieldWrite) :
    (forEach (outputField L) vars (s, log)).2.1.getCurrentVal L uiNumVar =
      s.getCurrentVal L uiNumVar := by
  induction vars generalizing s log with
  | nil => rfl
  | cons slot vars ih =>
    cases slot with
    | none => exact ih other log
    | some var =>
      rw [List.reduceOption_cons_of_some] at other
      have hsteady := steady_updateFieldVar L s var
      have hrest : ∀ var' ∈ vars.reduceOption,
          channel (s.updateFieldVar L var).2.2 var' ≠ some uiNumVar := by
        intro var' hvar'
        rw [channel_congr hsteady]
        exact other var' (List.mem_cons_of_mem _ hvar')
      rw [forEach]
      apply (ih hrest _).trans
      have hfirst := other var List.mem_cons_self
      cases hfind : s.mFieldVars.lookup var.muiVarId with
      | none => rw [updateFieldVar_unknown L s var hfind]
      | some tAddr =>
        by_cases hr : Rejects s s.muiNumIOVars (s.numVar tAddr)
        · rw [updateFieldVar_rejected L s var hfind hr]
        · rw [updateFieldVar_accepted L s var hfind hr, getCurrentVal_setTimeS]
          simp only [channel, hfind, if_neg hr] at hfirst
          have hnum := (TableBounds.range_of_accepted hr).1
          exact getCurrentVal_other L s var.mfTrueVal hnum hpos (fun heq => hfirst (heq ▸ rfl))

end Outputs

/-- What a phase of output does with the field outputs after a run. -/
structure Overrides (s₀ : System) (ls : List Label) (alMan : Option AlarmManager) : Prop where
  /-- The true values are the ones that the control has set last. -/
  trueVals : ∀ i v₀, trueVal s₀.img i = some v₀ →
    trueVal (run (step L) s₀ ls).img i = some (lastSet i v₀ ls)
  handed : List.Forall₂
    (fun var w => ∃ uiNumVar, Handed L (run (step L) s₀ ls).slave var w uiNumVar)
    (run (step L) s₀ ls).img.mFieldOut.reduceOption
    ((run (step L) s₀ ls).img.updateOutputs L alMan (run (step L) s₀ ls).slave).2.2
  /-- At the end of the phase the last output of a channel is published. -/
  published : ∀ before var after uiNumVar,
    (run (step L) s₀ ls).img.mFieldOut = before ++ some var :: after →
    channel (run (step L) s₀ ls).slave var = some uiNumVar →
    (∀ var' ∈ after.reduceOption, channel (run (step L) s₀ ls).slave var' ≠ some uiNumVar) →
    ((run (step L) s₀ ls).img.updateOutputs L alMan
      (run (step L) s₀ ls).slave).2.1.getCurrentVal L uiNumVar = var.mfTrueVal

theorem writeAlarms_registers (alMan : Option AlarmManager) (s : ModbusSlaveDrv) :
    (writeAlarms alMan s).mpMBmapping.tabRegisters = s.mpMBmapping.tabRegisters := by
  cases alMan with
  | none => rfl
  | some al =>
    apply List.foldlRecOn
      (motive := fun s' : ModbusSlaveDrv =>
        s'.mpMBmapping.tabRegisters = s.mpMBmapping.tabRegisters)
    · rfl
    · intro s' h it _
      apply Eq.trans _ h
      by_cases hr : Rejects s' s'.muiNumROInts it.1
      · rw [writeRO_rejected s' it.2 { uiChannel := it.1 } hr]
      · rw [writeRO_accepted s' it.2 { uiChannel := it.1 } hr]
        rfl

theorem slaveOuts_steady (img : IOImage) (slave : ModbusSlaveDrv) :
    Steady slave (forEach (fun var slave => (var, (slave.write L var).2)) img.mSlaveOut slave).2 :=
  forEach_kept (P := Steady slave) (fun var s h => h.trans (steady_write L s var)) _ (.refl slave)

theorem updateOutputs_handed {img : IOImage} {slave : ModbusSlaveDrv}
    (configured : ∀ var ∈ img.mFieldOut.reduceOption, (channel slave var).isSome)
    (alMan : Option AlarmManager) :
    List.Forall₂ (fun var w => ∃ uiNumVar, Handed L slave var w uiNumVar)
      img.mFieldOut.reduceOption (img.updateOutputs L alMan slave).2.2 := by
  have hsteady := slaveOuts_steady L img slave
  obtain ⟨writes, hwrites, hall⟩ := @outputs_handed L _ img.mFieldOut
    (fun var hvar => (channel_congr hsteady var).symm ▸ configured var hvar) []
  have hlog : (img.updateOutputs L alMan slave).2.2 = writes := hwrites
  rw [hlog]
  refine hall.imp ?_
  intro var w hhanded
  obtain ⟨uiNumVar, h⟩ := hhanded
  exact ⟨uiNumVar, h.congr L hsteady⟩

theorem updateOutputs_published {img : IOImage} {slave : ModbusSlaveDrv}
    {before after : List (Option IOVar)} {var : IOVar} {uiNumVar : BitVec 8}
    (hsplit : img.mFieldOut = before ++ some var :: after)
    (hchannel : channel slave var = some uiNumVar)
    (hlast : ∀ var' ∈ after.reduceOption, channel slave var' ≠ some uiNumVar)
    (alMan : Option AlarmManager) :
    (img.updateOutputs L alMan slave).2.1.getCurrentVal L uiNumVar = var.mfTrueVal := by
  simp only [updateOutputs, hsplit]
  rw [ModbusSlaveDrv.getCurrentVal, writeAlarms_registers, ← ModbusSlaveDrv.getCurrentVal,
    forEach_append, forEach]
  -- the turn of the variable starts from a state that is steady with the first
  have hsteady := (slaveOuts_steady L img slave).trans (outputs_steady L before
    (forEach (fun var slave => (var, (slave.write L var).2)) img.mSlaveOut slave).2 [])
  generalize forEach (outputField L) before
    ((forEach (fun var slave => (var, (slave.write L var).2)) img.mSlaveOut slave).2, []) = turn
    at hsteady ⊢
  obtain ⟨_, s, log⟩ := turn
  have hturn : channel s var = some uiNumVar := (channel_congr hsteady var).trans hchannel
  obtain ⟨tAddr, _, _, haccepted⟩ := lookup_of_channel hturn
  have hafter := hsteady.trans (steady_updateFieldVar L s var)
  have hkeep := outputs_keep L (TableBounds.range_of_accepted haccepted).1
    (s := (s.updateFieldVar L var).2.2)
    (fun var' hvar' => (channel_congr hafter var').symm ▸ hlast var' hvar')
    (outputField L var (s, log)).2.2
  apply hkeep.trans
  rw [updateFieldVar_channel L hturn, getCurrentVal_setTimeS]
  exact getCurrentVal_setCurrentVal L s var.mfTrueVal uiNumVar

/-- The steps of the regulator itself leave the masters' cells alone. -/
theorem sameForcing_step (s : System) {l : Label} (own : l.OfRegulator) :
    SameForcing s.slave (step L s l).slave := by
  cases l with
  | updateInputs field now =>
    have hfieldIn := forEach_kept (P := SameForcing s.slave)
      (fun var s' h => h.trans (steady_updateFieldVar L s' (field.readVar var)).toSameForcing)
      s.img.mFieldIn (.refl s.slave)
    have hslaveIn := @forEach_kept _ (fun var slave => ((slave.read L var now).2, slave))
      (SameForcing s.slave) (fun _ _ h => h) s.img.mSlaveIn _ hfieldIn
    exact @forEach_kept _ (fun var slave => (field.updateVar var, slave))
      (SameForcing s.slave) (fun _ _ h => h) s.img.mFieldOut _ hslaveIn
  | setCurrentVal uiID fCurrentVal => exact .refl s.slave
  | updateOutputs alMan =>
    have hloops := (slaveOuts_steady L s.img s.slave).trans
      (outputs_steady L s.img.mFieldOut _ [])
    exact (hloops.trans (steady_writeAlarms _ alMan)).toSameForcing
  | setState tState => exact ⟨rfl, fun _ _ => rfl⟩
  | request tables => exact own.elim

/-- After every run the outputs are overridden by the masters' cells alone, and
no run of the regulator, of whatever calls, changes these. -/
theorem force_override (s₀ : System) (ls : List Label) (alMan : Option AlarmManager)
    (configured : ∀ var ∈ (run (step L) s₀ ls).img.mFieldOut.reduceOption,
      (channel (run (step L) s₀ ls).slave var).isSome) :
    Overrides L s₀ ls alMan ∧
      ((∀ l ∈ ls, l.OfRegulator) → SameForcing s₀.slave (run (step L) s₀ ls).slave) ∧
      ∀ calls, SameForcing s₀.slave (run (TableBounds.step L) s₀.slave calls) := by
  refine ⟨⟨fun i v₀ h => trueVal_run L h ls, updateOutputs_handed L configured alMan, ?_⟩, ?_, ?_⟩
  · exact fun before var after uiNumVar hsplit hchannel hlast =>
      updateOutputs_published L hsplit hchannel hlast alMan
  · intro own
    exact run_invariant (P := fun s => SameForcing s₀.slave s.slave)
      (C := fun (_ : System) (l : Label) => l.OfRegulator)
      (fun s l h hl => h.trans (sameForcing_step L s hl))
      (.refl s₀.slave) (along_of_forall s₀ own)
  · exact sameForcing_calls L s₀.slave

/-- A slave with the shipped counts, just initialised. -/
def shippedSlave : ModbusSlaveDrv :=
  (TableBounds.unInitSlave.init (.ok (some TableBounds.shippedXml)) true true "").2

/-- The speed set point alone, which is on channel 141. -/
def speedImage : IOImage :=
  { construct with
    mFieldOut := List.replicate 19 none ++
      [some (newIOVar (TableBounds.varAt 0 {}) 1000000019 { uiChannel := 141 })] }

/-- A master sets the coil of the set point between two scans. -/
def forcedRun : List Label :=
  [.setCurrentVal 1000000019 0x42700000#32, .updateOutputs none,
    .request (shippedSlave.setForced 136 true).mpMBmapping,
    .updateInputs ⟨fun _ => none, fun _ => none⟩ 5]

theorem speed_overridden :
    Overrides floatAbcd ⟨speedImage, shippedSlave⟩ forcedRun none ∧
      ((∀ l ∈ forcedRun, l.OfRegulator) → SameForcing shippedSlave
        (run (step floatAbcd) ⟨speedImage, shippedSlave⟩ forcedRun).slave) ∧
      ∀ calls, SameForcing shippedSlave (run (TableBounds.step floatAbcd) shippedSlave calls) :=
  force_override floatAbcd ⟨speedImage, shippedSlave⟩ forcedRun none (by decide)

end ForceOverride
