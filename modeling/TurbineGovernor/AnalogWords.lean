import TurbineGovernor.DeviceValues

/-!
# The words of analog devices

A device of N bits stands for a range of integers that its representation can
hold. A value is carried faithfully while its scaled form stays in that range;
`write` does not look, and the limits that `read` looks at are those of the
range for 8 and 16 bits only.
-/

namespace AnalogWords
open CommonTypes ByteOrder ByteMemory ProcessImage ProcessImage.Addr AffineScales DeviceValues
open EtherDevices (StatusWord)

/-- The integers that `n` bits hold in a representation. -/
def reprMin (repr : BitRepr) (n : Nat) : ℤ :=
  match repr with
  | .unsigned => 0
  | .signed => -2 ^ (n - 1)
  | .halfSigned => 0
  | .invalid => 1

def reprMax (repr : BitRepr) (n : Nat) : ℤ :=
  match repr with
  | .unsigned => 2 ^ n - 1
  | .signed => 2 ^ (n - 1) - 1
  | .halfSigned => 2 ^ (n - 1) - 1
  | .invalid => -1

/-- The bits of an integer in the range are that integer. -/
theorem ofBits_ofInt {repr : BitRepr} (hrepr : repr ≠ .invalid) {n : Nat} (hn : 0 < n) {t : ℤ}
    (ht : t ∈ Set.Icc (reprMin repr n) (reprMax repr n)) : ofBits repr (BitVec.ofInt n t) = t := by
  obtain ⟨hmin, hmax⟩ := ht
  have hpos : (0 : ℤ) < 2 ^ (n - 1) := by positivity
  cases repr with
  | unsigned =>
    have hlt : t < 2 ^ n := by
      have hle : t ≤ 2 ^ n - 1 := hmax
      omega
    rw [ofBits, if_pos rfl, BitVec.toNat_ofInt,
      Int.toNat_of_nonneg (Int.emod_nonneg _ (by positivity)),
      Int.emod_eq_of_lt hmin (by exact_mod_cast hlt)]
  | signed =>
    have hlt : t ≤ 2 ^ (n - 1) - 1 := hmax
    rw [ofBits, if_neg (by decide)]
    exact BitVec.toInt_ofInt_eq_self hn hmin (by omega)
  | halfSigned =>
    have hlow : 0 ≤ t := hmin
    have hlt : t ≤ 2 ^ (n - 1) - 1 := hmax
    rw [ofBits, if_neg (by decide)]
    exact BitVec.toInt_ofInt_eq_self hn (by omega) (by omega)
  | invalid => exact absurd rfl hrepr

theorem ofBits_toUnsigned {repr : BitRepr} (hrepr : repr ≠ .invalid) {n : Nat} (hn : 0 < n) {x : ℚ}
    (hx : x ∈ Set.Icc (reprMin repr n : ℚ) (reprMax repr n)) :
    ofBits repr (toUnsigned n x) = trunc x :=
  ofBits_ofInt hrepr hn (trunc_mem_Icc hx)

/-- For one and two bytes they are those of the representation. -/
theorem limits_eq (repr : BitRepr) {uiNumBits : BitVec 8}
    (h : uiNumBits.toNat = 8 ∨ uiNumBits.toNat = 16) :
    AnalogDev.minReprLimit repr uiNumBits = reprMin repr uiNumBits.toNat ∧
      AnalogDev.maxReprLimit repr uiNumBits = reprMax repr uiNumBits.toNat := by
  have h7 : oneShifted 7 = 2 ^ 7 := rfl
  have h8 : oneShifted 8 = 2 ^ 8 := rfl
  have h15 : oneShifted 15 = 2 ^ 15 := rfl
  have h16 : oneShifted 16 = 2 ^ 16 := rfl
  rcases h with h | h <;> cases repr <;>
    norm_num [AnalogDev.minReprLimit, AnalogDev.maxReprLimit, reprMin, reprMax, h, h7, h8, h15,
      h16]

/-- For four bytes the shifts overflow and no range is between the limits. -/
theorem limits_overflow (repr : BitRepr) {uiNumBits : BitVec 8} (h : uiNumBits.toNat = 32)
    {fHwMin fHwMax : ℚ} (hHw : fHwMin < fHwMax) :
    fHwMin < AnalogDev.minReprLimit repr uiNumBits ∨
      fHwMax > AnalogDev.maxReprLimit repr uiNumBits := by
  have h31 : oneShifted 31 = -2 ^ 31 := rfl
  have h32 : oneShifted 32 = 1 := rfl
  by_contra hnot
  rw [not_or, not_lt, gt_iff_lt, not_lt] at hnot
  have hle := hnot.1.trans_lt (hHw.trans_le hnot.2)
  cases repr <;>
    simp [AnalogDev.minReprLimit, AnalogDev.maxReprLimit, h, h31, h32] at hle
  all_goals norm_num at hle

theorem width_cases {status : StatusWord} {repr : BitRepr} {uiNumBits : BitVec 8}
    (accepted : AnalogDev.parametersOk status repr uiNumBits = true) :
    repr ≠ .invalid ∧
      (uiNumBits.toNat = 8 ∨ uiNumBits.toNat = 16 ∨ uiNumBits.toNat = 32) := by
  have hparameters := of_decide_eq_true (Bool.and_eq_true_iff.mp accepted).1
  obtain ⟨hrepr, hmod, hne, hpos, hle⟩ := hparameters
  exact ⟨hrepr, by omega⟩

section Devices
variable (little : Bool) (s : EcSlaves) (m : Memory) (dev : AnalogDev)

/-- What `write` converts. -/
def scaledVal (var : IOVar) : ℚ :=
  AnalogDev.scaleValue var.mfHWMin var.mfHWMax var.mfEguMin var.mfEguMax var.getCurrentVal

theorem write_eq (var : IOVar) (hHw : var.mfHWMin < var.mfHWMax)
    (hEgu : var.mfEguMin < var.mfEguMax) :
    AnalogDev.write little s m dev var = writeDevice little s m var.mtAddr
      (convertFloat little (scaledVal var) var.mtAddr.uiNumBits) :=
  if_neg (not_or.mpr ⟨not_le.mpr hHw, not_le.mpr hEgu⟩)

/-- `write` is refused when the driver refuses the address. -/
theorem write_refused (var : IOVar) (hHw : var.mfHWMin < var.mfHWMax)
    (hEgu : var.mfEguMin < var.mfEguMax)
    (hwidth : var.mtAddr.uiNumBits.toNat = 8 ∨ var.mtAddr.uiNumBits.toNat = 16 ∨
      var.mtAddr.uiNumBits.toNat = 32)
    (h : ¬ (Valid s var.mtAddr ∧ var.mtAddr.uiChannel.toNat % 8 = 0)) :
    AnalogDev.write little s m dev var = (false, m) := by
  rw [write_eq little s m dev var hHw hEgu]
  refine (refused little m _ ?_).1
  rintro ⟨hvalid, hfield | hcross | hbytes | hthree⟩
  · exact absurd hfield.2.1 (by omega)
  · exact absurd hcross.2.1 (by omega)
  · exact h ⟨hvalid, hbytes.2⟩
  · exact h ⟨hvalid, hthree.2⟩

/-- What `convertBytes` makes of the word that an accepted `write` leaves. -/
theorem write_decodes (var : IOVar) (hHw : var.mfHWMin < var.mfHWMax)
    (hEgu : var.mfEguMin < var.mfEguMax) (hvalid : Valid s var.mtAddr)
    (hbytes : WholeBytes var.mtAddr) :
    (AnalogDev.write little s m dev var).1 = true ∧
      ∀ inputs, inputs var.mtAddr.uiModule = s.outputs var.mtAddr.uiModule →
        readDevice little { s with inputs := inputs } (AnalogDev.write little s m dev var).2
            var.mtAddr =
          (true, convertFloat little (scaledVal var) var.mtAddr.uiNumBits) := by
  rw [write_eq little s m dev var hHw hEgu]
  exact readDevice_written little m hvalid hbytes (scaledVal var)

end Devices

/-- The current value lies between the engineering values of the two limits. -/
def InSpan (dev : AnalogDev) (var : IOVar) : Prop :=
  AnalogDev.scaleValue var.mfEguMin var.mfEguMax var.mfHWMin var.mfHWMax dev.mfMinReprLimit ≤
      var.getCurrentVal ∧
    var.getCurrentVal ≤
      AnalogDev.scaleValue var.mfEguMin var.mfEguMax var.mfHWMin var.mfHWMax dev.mfMaxReprLimit

instance (dev : AnalogDev) (var : IOVar) : Decidable (InSpan dev var) :=
  inferInstanceAs (Decidable (_ ∧ _))

theorem inSpan_iff (dev : AnalogDev) {var : IOVar} (hHw : var.mfHWMin < var.mfHWMax)
    (hEgu : var.mfEguMin < var.mfEguMax) :
    InSpan dev var ↔ scaledVal var ∈ Set.Icc dev.mfMinReprLimit dev.mfMaxReprLimit := by
  exact and_congr (scale_le_iff hEgu hHw _ _) (le_scale_iff hEgu hHw _ _)

/-- One call of the device: an accepted value comes out as it went in, and a
value out of range is not accepted. -/
structure NeverWraps (little : Bool) (s : EcSlaves) (m : Memory) (dev : AnalogDev)
    (var : IOVar) : Prop where
  decodes : (AnalogDev.write little s m dev var).1 = true →
    convertBytes little (readDevice little { s with inputs := s.outputs }
      (AnalogDev.write little s m dev var).2 var.mtAddr).2 dev.mtBitRepr var.mtAddr.uiNumBits =
        trunc (scaledVal var)
  refuses : scaledVal var ∉ Set.Icc dev.mfMinReprLimit dev.mfMaxReprLimit →
    AnalogDev.write little s m dev var = (false, m)

/-- A value that the driver takes is carried faithfully exactly when it is
between the engineering values of the limits. -/
theorem never_wraps_iff (little : Bool) (s : EcSlaves) (m : Memory) (status : StatusWord)
    (repr : BitRepr) (uiNumBits : BitVec 8) (var : IOVar)
    (accepted : AnalogDev.parametersOk status repr uiNumBits = true)
    (width : var.mtAddr.uiNumBits = uiNumBits) (hHw : var.mfHWMin < var.mfHWMax)
    (hmin : (AnalogDev.new status repr uiNumBits).mfMinReprLimit ≤ var.mfHWMin)
    (hmax : var.mfHWMax ≤ (AnalogDev.new status repr uiNumBits).mfMaxReprLimit)
    (hEgu : var.mfEguMin < var.mfEguMax) :
    NeverWraps little s m (AnalogDev.new status repr uiNumBits) var ↔
      (Valid s var.mtAddr ∧ var.mtAddr.uiChannel.toNat % 8 = 0 →
        InSpan (AnalogDev.new status repr uiNumBits) var) := by
  obtain ⟨hrepr, hwidth⟩ := width_cases accepted
  have hsmall : uiNumBits.toNat = 8 ∨ uiNumBits.toNat = 16 := by
    by_contra hnot
    have h32 : uiNumBits.toNat = 32 := by omega
    rcases limits_overflow repr h32 hHw with hlow | hhigh
    · exact absurd hmin (not_le.mpr hlow)
    · exact absurd hmax (not_le.mpr hhigh)
  obtain ⟨hlow, hhigh⟩ := limits_eq repr hsmall
  rw [inSpan_iff _ hHw hEgu]
  constructor
  · rintro ⟨_, refuses⟩ ⟨hvalid, haligned⟩
    by_contra hout
    have haccepted := (write_decodes little s m (AnalogDev.new status repr uiNumBits) var hHw
      hEgu hvalid ⟨width ▸ hwidth, haligned⟩).1
    rw [refuses hout] at haccepted
    cases haccepted
  · intro hspan
    by_cases htaken : Valid s var.mtAddr ∧ var.mtAddr.uiChannel.toNat % 8 = 0
    · have hin := hspan htaken
      obtain ⟨_, hread⟩ := write_decodes little s m (AnalogDev.new status repr uiNumBits) var hHw
        hEgu htaken.1 ⟨width ▸ hwidth, htaken.2⟩
      refine ⟨fun _ => ?_, fun hout => absurd hin hout⟩
      rw [hread s.outputs rfl, convertBytes_convertFloat little _ _ (width ▸ hwidth), width]
      have hcast : scaledVal var ∈
          Set.Icc (reprMin repr uiNumBits.toNat : ℚ) (reprMax repr uiNumBits.toNat) := by
        rw [← hlow, ← hhigh]
        exact hin
      exact_mod_cast ofBits_toUnsigned hrepr (by omega) hcast
    · have hrefused := write_refused little s m (AnalogDev.new status repr uiNumBits) var hHw hEgu
        (width ▸ hwidth) htaken
      refine ⟨fun haccepted => ?_, fun _ => hrefused⟩
      rw [hrefused] at haccepted
      cases haccepted

/-- Eight bits in the status word and the value of a device of one byte. -/
def statusWord : StatusWord := ⟨{ uiModule := 1, uiChannel := 24, uiNumBits := 8 }, 7, 6⟩

/-- A percentage on all of a signed byte, with the given forced value. -/
def percentVar (fForcedVal : ℚ) : IOVar :=
  { miTimeS := 0, mfTrueVal := 0, mfForcedVal := fForcedVal, mfEguMin := 0, mfEguMax := 100
    mfHWMin := -128, mfHWMax := 127, mtAddr := { uiModule := 1, uiChannel := 32, uiNumBits := 8 }
    mtQState := .ok, mbForcedVal := true }

theorem half_never_wraps :
    NeverWraps true oneSlave (fun _ => 0#8) (AnalogDev.new statusWord .signed 8) (percentVar 50) :=
  (never_wraps_iff true oneSlave (fun _ => 0#8) statusWord .signed 8 (percentVar 50) (by decide) rfl
    (by decide +kernel) (by decide +kernel) (by decide +kernel) (by decide +kernel)).mpr
    (fun _ => by decide +kernel)

/-- Twice the full value is accepted and comes out as almost the full value. -/
theorem double_wraps :
    (AnalogDev.write true oneSlave (fun _ => 0#8) (AnalogDev.new statusWord .signed 8)
      (percentVar 200)).1 = true ∧
    scaledVal (percentVar 200) = 382 ∧
    convertBytes true (readDevice true { oneSlave with inputs := oneSlave.outputs }
      (AnalogDev.write true oneSlave (fun _ => 0#8) (AnalogDev.new statusWord .signed 8)
        (percentVar 200)).2 (percentVar 200).mtAddr).2 .signed 8 = 126 ∧
    ¬ NeverWraps true oneSlave (fun _ => 0#8) (AnalogDev.new statusWord .signed 8)
      (percentVar 200) := by
  have haccepted : (AnalogDev.write true oneSlave (fun _ => 0#8)
      (AnalogDev.new statusWord .signed 8) (percentVar 200)).1 = true := by decide +kernel
  refine ⟨haccepted, by decide +kernel, by decide +kernel, fun h => ?_⟩
  have hdecodes := h.decodes haccepted
  revert hdecodes
  decide +kernel

section Back
variable (little : Bool) (s : EcSlaves) (m : Memory) (dev : AnalogDev) (var : IOVar)
  (now : BitVec 64)

/-- The variable with the value to write. -/
def withVal (v : ℚ) : IOVar := { var.setCurrentVal v with mbForcedVal := false }

def written (v : ℚ) : Bool × Memory := AnalogDev.write little s m dev (withVal var v)

/-- `read` of the word that `write` has left for a value. -/
def readBack (v : ℚ) : Bool × IOVar :=
  AnalogDev.read little { s with inputs := s.outputs } (written little s m dev var v).2 dev var now

/-- One unit of the hardware on the scale of the engineering values. -/
def step : ℚ := (var.mfEguMax - var.mfEguMin) / (var.mfHWMax - var.mfHWMin)

/-- What comes back for the values of the engineering range. -/
structure RoundTrips : Prop where
  succeeds : ∀ v ∈ Set.Icc var.mfEguMin var.mfEguMax,
    (written little s m dev var v).1 = true ∧ (readBack little s m dev var now v).1 = true
  extended : ∀ v ∈ Set.Icc var.mfEguMin var.mfEguMax,
    (readBack little s m dev var now v).2.mfTrueVal ∈
      Set.Icc (var.mfEguMin - step var) (var.mfEguMax + step var)
  near : ∀ v ∈ Set.Icc var.mfEguMin var.mfEguMax,
    |(readBack little s m dev var now v).2.mfTrueVal - v| < step var
  monotone : MonotoneOn (fun v => (readBack little s m dev var now v).2.mfTrueVal)
    (Set.Icc var.mfEguMin var.mfEguMax)

/-- A device whose limits leave the hardware range alone gives back the
requantised value. -/
theorem readBack_eq (hvalid : Valid s var.mtAddr) (hbytes : WholeBytes var.mtAddr)
    (hHw : var.mfHWMin < var.mfHWMax) (hEgu : var.mfEguMin < var.mfEguMax)
    (hrepr : dev.mtBitRepr ≠ .invalid)
    (hlow : dev.mfMinReprLimit = reprMin dev.mtBitRepr var.mtAddr.uiNumBits.toNat)
    (hhigh : dev.mfMaxReprLimit = reprMax dev.mtBitRepr var.mtAddr.uiNumBits.toNat)
    (hmin : (reprMin dev.mtBitRepr var.mtAddr.uiNumBits.toNat : ℚ) ≤ var.mfHWMin)
    (hmax : var.mfHWMax ≤ (reprMax dev.mtBitRepr var.mtAddr.uiNumBits.toNat : ℚ)) {v : ℚ}
    (hv : v ∈ Set.Icc var.mfEguMin var.mfEguMax) :
    (written little s m dev var v).1 = true ∧ (readBack little s m dev var now v).1 = true ∧
      (readBack little s m dev var now v).2.mfTrueVal =
        requantised var.mfHWMin var.mfHWMax var.mfEguMin var.mfEguMax v := by
  have hscaled : scaledVal (withVal var v) =
      scale var.mfHWMin var.mfHWMax var.mfEguMin var.mfEguMax v := rfl
  obtain ⟨haccepted, hread⟩ := write_decodes little s m dev (withVal var v) hHw hEgu hvalid hbytes
  have hin : scale var.mfHWMin var.mfHWMax var.mfEguMin var.mfEguMax v ∈
      Set.Icc (reprMin dev.mtBitRepr var.mtAddr.uiNumBits.toNat : ℚ)
        (reprMax dev.mtBitRepr var.mtAddr.uiNumBits.toNat) := by
    obtain ⟨hge, hle⟩ := scale_mem_Icc hHw.le hEgu hv
    exact ⟨hmin.trans hge, hle.trans hmax⟩
  have hguard : ¬ (var.mfHWMin < dev.mfMinReprLimit ∨ var.mfHWMax > dev.mfMaxReprLimit ∨
      var.mfHWMax ≤ var.mfHWMin) := by
    rw [hlow, hhigh]
    exact not_or.mpr ⟨not_lt.mpr hmin, not_or.mpr ⟨not_lt.mpr hmax, not_le.mpr hHw⟩⟩
  have hword : readDevice little { s with inputs := s.outputs } (written little s m dev var v).2
      var.mtAddr = (true, convertFloat little
        (scale var.mfHWMin var.mfHWMax var.mfEguMin var.mfEguMax v) var.mtAddr.uiNumBits) :=
    hread s.outputs rfl
  have hback : readBack little s m dev var now v = (true, { var.setCurrentVal
      (requantised var.mfHWMin var.mfHWMax var.mfEguMin var.mfEguMax v) with
      miTimeS := now, mtQState := dev.mtLastQState }) := by
    rw [readBack, AnalogDev.read, if_neg hguard, hword]
    dsimp only
    rw [convertBytes_convertFloat little _ _ hbytes.1,
      ofBits_toUnsigned hrepr (by have := hbytes.1; omega) hin]
    rfl
  rw [hback]
  exact ⟨haccepted, rfl, rfl⟩

end Back

/-- Values come back within a step and in order, from devices of one and two
bytes and from no others. -/
theorem round_trips_iff (little : Bool) (s : EcSlaves) (m : Memory) (status : StatusWord)
    (repr : BitRepr) (var : IOVar) (now : BitVec 64) (hrepr : repr ≠ .invalid)
    (hvalid : Valid s var.mtAddr) (hbytes : WholeBytes var.mtAddr)
    (hHw : var.mfHWMin < var.mfHWMax)
    (hmin : (reprMin repr var.mtAddr.uiNumBits.toNat : ℚ) ≤ var.mfHWMin)
    (hmax : var.mfHWMax ≤ (reprMax repr var.mtAddr.uiNumBits.toNat : ℚ))
    (hEgu : var.mfEguMin < var.mfEguMax) :
    RoundTrips little s m (AnalogDev.new status repr var.mtAddr.uiNumBits) var now ↔
      var.mtAddr.uiNumBits.toNat ≠ 32 := by
  constructor
  · intro h h32
    have hread := (h.succeeds var.mfEguMin ⟨le_rfl, hEgu.le⟩).2
    rw [readBack, AnalogDev.read, if_pos ?_] at hread
    · cases hread
    · rcases limits_overflow repr h32 hHw with hlow | hhigh
      · exact Or.inl hlow
      · exact Or.inr (Or.inl hhigh)
  · intro hne
    have hsmall : var.mtAddr.uiNumBits.toNat = 8 ∨ var.mtAddr.uiNumBits.toNat = 16 := by
      have := hbytes.1
      omega
    obtain ⟨hlow, hhigh⟩ := limits_eq repr hsmall
    have hback := fun {v : ℚ} (hv : v ∈ Set.Icc var.mfEguMin var.mfEguMax) =>
      readBack_eq little s m (AnalogDev.new status repr var.mtAddr.uiNumBits) var now hvalid hbytes
        hHw hEgu hrepr hlow hhigh hmin hmax hv
    constructor
    · exact fun v hv => ⟨(hback hv).1, (hback hv).2.1⟩
    · intro v hv
      rw [(hback hv).2.2]
      exact requantised_mem_Icc hHw hEgu hv
    · intro v hv
      rw [(hback hv).2.2]
      exact abs_requantised_sub_lt hHw hEgu v
    · intro v hv v' hv' hle
      dsimp only
      rw [(hback hv).2.2, (hback hv').2.2]
      exact requantised_mono hHw hEgu hle

/-- A range of 0 to 100 on the scale from 0 to 1000 of a word. -/
def wordVar (uiNumBits : BitVec 8) : IOVar :=
  { miTimeS := 0, mfTrueVal := 0, mfForcedVal := 0, mfEguMin := 0, mfEguMax := 100
    mfHWMin := 0, mfHWMax := 1000
    mtAddr := { uiModule := 1, uiChannel := 32, uiNumBits := uiNumBits }
    mtQState := .ok, mbForcedVal := false }

theorem two_bytes_round_trip :
    RoundTrips true oneSlave (fun _ => 0#8) (AnalogDev.new statusWord .halfSigned 16) (wordVar 16)
      1234 :=
  (round_trips_iff true oneSlave (fun _ => 0#8) statusWord .halfSigned (wordVar 16) 1234
    (by decide) (by decide) (by decide) (by decide +kernel) (by decide +kernel)
    (by decide +kernel) (by decide +kernel)).mpr (by decide)

/-- A word of four bytes is written and never read. -/
theorem four_bytes_unread :
    (written true oneSlave (fun _ => 0#8) (AnalogDev.new statusWord .signed 32) (wordVar 32)
      50).1 = true ∧
    (readBack true oneSlave (fun _ => 0#8) (AnalogDev.new statusWord .signed 32) (wordVar 32) 1234
      50).1 = false ∧
    ¬ RoundTrips true oneSlave (fun _ => 0#8) (AnalogDev.new statusWord .signed 32) (wordVar 32)
      1234 := by
  have hread : (readBack true oneSlave (fun _ => 0#8) (AnalogDev.new statusWord .signed 32)
      (wordVar 32) 1234 50).1 = false := by decide +kernel
  refine ⟨by decide +kernel, hread, fun h => ?_⟩
  have hsucceeds := (h.succeeds 50 (by decide +kernel)).2
  rw [hread] at hsucceeds
  cases hsucceeds

end AnalogWords
