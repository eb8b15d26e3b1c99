import TurbineGovernor.WriteOrder

/-!
# Expiry of pending writes

`cleanWriteRequests` takes expired requests from the top of the pending queue
and stops at the first live one. The queue is ordered by the time-outs alone,
not by the deadlines, so a live request with a long time-out hides expired ones
behind it. The scan is exact on the contents whose order of removal has no live
request before an expired one.
-/

namespace WriteExpiry
open CommonTypes PriorityQueues TransitionRuns MasterDriver

variable {Q : Type} [PriorityQueue Q WriteReq WriteReq.Less]

/-- What an expiry scan at clock reading `t` is for. -/
structure ExpiresExactly (d d' : ModbusMasterDrv Q) (t : Int) : Prop where
  noneExpired : ∀ wr ∈ PriorityQueue.elems d'.mPendingWrites,
    ¬ t - wr.mTimeS > wr.mtWriteTimeOut.toNat
  calledBack : ∃ gone : List WriteReq,
    (gone : Multiset WriteReq) =
      (PriorityQueue.elems d.mPendingWrites).filter (fun wr => wr.expired t = true) ∧
    d'.calls = d.calls ++ gone.map WriteReq.timeOutCall
  stillPending : PriorityQueue.elems d'.mPendingWrites =
    (PriorityQueue.elems d.mPendingWrites).filter (fun wr => ¬ wr.expired t = true)

/-- No live request is taken from the queue before an expired one. -/
def ExpiredFirst (q : Q) (t : Int) : Prop :=
  (order q).Pairwise (fun wr later => later.expired t = true → wr.expired t = true)

theorem expired_eq_false {wr : WriteReq} {t : Int} :
    wr.expired t = false ↔ ¬ t - wr.mTimeS > wr.mtWriteTimeOut.toNat := by
  simp only [WriteReq.expired]
  exact decide_eq_false_iff_not

/-- The loop takes the expired requests at the front of the order and no others. -/
theorem cleanLoop_order (t : Int) (left : Nat) (d : ModbusMasterDrv Q)
    (enough : (PriorityQueue.elems d.mPendingWrites).card ≤ left) :
    ∃ q : Q, d.cleanLoop false t left =
        { d with
          mPendingWrites := q
          calls := d.calls ++ ((order d.mPendingWrites).takeWhile (WriteReq.expired t)).map
            WriteReq.timeOutCall } ∧
      order q = (order d.mPendingWrites).dropWhile (WriteReq.expired t) := by
  induction left generalizing d with
  | zero =>
    have hnone : order d.mPendingWrites = [] := by
      apply order_of_empty
      exact (PriorityQueue.top_eq_none _).mpr (Multiset.card_eq_zero.mp (Nat.le_zero.mp enough))
    refine ⟨d.mPendingWrites, ?_, ?_⟩
    · simp [ModbusMasterDrv.cleanLoop, hnone]
    · simp [hnone]
  | succ left ih =>
    cases htop : PriorityQueue.top d.mPendingWrites with
    | none =>
      have hnone := order_of_empty htop
      refine ⟨d.mPendingWrites, ?_, ?_⟩
      · simp [ModbusMasterDrv.cleanLoop, htop, hnone]
      · simp [hnone]
    | some wr =>
      have hcons := order_of_top htop
      cases hexp : wr.expired t with
      | true =>
        have hpop := card_pop htop
        obtain ⟨q, heq, horder⟩ :=
          ih (ModbusMasterDrv.log { d with mPendingWrites := PriorityQueue.pop d.mPendingWrites }
            (.writeTimeOut wr.id wr.mtAddr)) (by simp only [ModbusMasterDrv.log]; omega)
        refine ⟨q, ?_, ?_⟩
        · simp only [ModbusMasterDrv.cleanLoop, htop, hexp, Bool.true_or, if_true, heq]
          simp [ModbusMasterDrv.log, WriteReq.timeOutCall, hcons, hexp]
        · rw [horder, hcons, List.dropWhile_cons_of_pos hexp]
          rfl
      | false =>
        refine ⟨d.mPendingWrites, ?_, ?_⟩
        · simp [ModbusMasterDrv.cleanLoop, htop, hcons, hexp]
        · rw [hcons, List.dropWhile_cons_of_neg (by simp [hexp])]

/-- The scan expires exactly the overdue requests when and only when the queue
would give them up before every live one. -/
theorem clean_exact_iff (d : ModbusMasterDrv Q) (t : Int) :
    ExpiresExactly d (d.cleanWriteRequests t) t ↔ ExpiredFirst d.mPendingWrites t := by
  obtain ⟨q, heq, horder⟩ :=
    cleanLoop_order t (PriorityQueue.elems d.mPendingWrites).card d le_rfl
  have hclean : d.cleanWriteRequests t = _ := heq
  rw [hclean]
  simp only [ExpiredFirst]
  rw [← dropWhile_none_iff, ← horder]
  constructor
  · intro h wr hwr
    exact expired_eq_false.mpr (h.noneExpired wr (mem_order.mp hwr))
  · intro hlive
    rw [horder] at hlive
    obtain ⟨htake, hdrop⟩ := filter_of_dropWhile_none hlive
    constructor
    · intro wr hwr
      apply expired_eq_false.mp
      apply hlive wr
      rw [← horder]
      exact mem_order.mpr hwr
    · refine ⟨_, ?_, rfl⟩
      rw [← htake, ← coe_order d.mPendingWrites, Multiset.filter_coe]
      simp
    · change PriorityQueue.elems q = _
      rw [← coe_order q, horder, ← hdrop, ← coe_order d.mPendingWrites, Multiset.filter_coe]
      simp

/-- It is enough that the expired requests have the longer time-outs. -/
theorem expiredFirst_of_longer {q : Q} {t : Int}
    (longer : ∀ wr ∈ PriorityQueue.elems q, ∀ late ∈ PriorityQueue.elems q,
      wr.expired t = false → late.expired t = true → WriteReq.Less wr late) :
    ExpiredFirst q t := by
  refine (order_pairwise q).imp_of_mem ?_
  intro wr late hwr hlate notLess hexp
  by_contra hlive
  exact notLess (longer wr (mem_order.mp hwr) late (mem_order.mp hlate) (by simpa using hlive) hexp)

/-- A live request with a longer time-out than an expired one hides it. -/
theorem not_expiredFirst {q : Q} {t : Int} {wr late : WriteReq}
    (hwr : wr ∈ PriorityQueue.elems q) (hlate : late ∈ PriorityQueue.elems q)
    (live : wr.expired t = false) (hexp : late.expired t = true) (shorter : WriteReq.Less late wr) :
    ¬ ExpiredFirst q t := by
  intro hfirst
  have hboth := hfirst.and (order_pairwise q)
  have hne : late ≠ wr := by
    intro h
    rw [h, live] at hexp
    exact Bool.false_ne_true hexp
  obtain ⟨before, after, hsplit⟩ := List.append_of_mem (mem_order.mpr hwr)
  rw [hsplit] at hboth
  have hmem : late ∈ before ++ wr :: after := hsplit ▸ mem_order.mpr hlate
  obtain ⟨_, hrest, hcross⟩ := List.pairwise_append.mp hboth
  rcases List.mem_append.mp hmem with hmem | hmem
  · exact (hcross late hmem wr List.mem_cons_self).2 shorter
  · rcases List.mem_cons.mp hmem with h | hmem
    · exact hne h
    · have := ((List.pairwise_cons.mp hrest).1 late hmem).1 hexp
      rw [live] at this
      exact Bool.false_ne_true this

/-- The first request is 200 ms old and allowed 100, the second has just been
made and is allowed a minute. -/
def overdueBehindFresh : ModbusMasterDrv (WriteReq.Queue true) :=
  run (WriteOrder.queueStep floatAbcd) WriteOrder.started
    [.write 1 { uiChannel := 1 } 100 0, .write 2 { uiChannel := 1 } 60000 200]

theorem overdue_stays_pending :
    ¬ ExpiresExactly overdueBehindFresh (overdueBehindFresh.cleanWriteRequests 200) 200 := by
  intro h
  exact h.noneExpired (WriteOrder.setPoint 0 1 100) (by decide) (by decide)

end WriteExpiry
