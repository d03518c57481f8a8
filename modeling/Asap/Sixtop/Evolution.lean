import Asap.Sixtop.Lifetime
import Mathlib.Logic.Relation

/-!
# Transactions in any run

Here nothing is assumed of the events. A sent callback may come when its block is free, or
another transaction's; but what it does then is a transition that the rules allow, or
nothing. So the list has the blocks in use, each transaction has a peer of its own, and it
moves along the rules.

## Main definitions

* `Consistent` — the invariant that needs no assumption.
* `Edge`, `OwnEdge` — the transitions, and those that are not the reception of a packet.
* `Evolves`, `Grows` — what happens to the transactions in an event, in calls of `sixp_output`.
-/

namespace Asap.Sixtop

open Asap.Lib Asap.Tsch

/-- The state is entered by a received packet. -/
def SixpTransState.received : SixpTransState → Bool
  | .requestReceived | .responseReceived | .confirmationReceived => true
  | _ => false

namespace Sixp

/-- A transition. -/
def Edge (mode : SixpTransMode) (state newState : SixpTransState) : Prop :=
  mayTransit mode state newState

/-- A transition that is not the reception of a packet. -/
def OwnEdge (mode : SixpTransMode) (state newState : SixpTransState) : Prop :=
  mayTransit mode state newState ∧ newState.received = false

end Sixp

/-- What a transaction is about stays, and its state moves on along a relation. -/
structure SixpTrans.Onward (R : SixpTransMode → SixpTransState → SixpTransState → Prop)
    (t t' : SixpTrans) : Prop where
  peerAddr : t'.peerAddr = t.peerAddr
  seqno : t'.seqno = t.seqno
  cmd : t'.cmd = t.cmd
  mode : t'.mode = t.mode
  state : Relation.ReflTransGen (R t.mode) t.state t'.state

namespace SixpTrans.Onward

variable {R R' : SixpTransMode → SixpTransState → SixpTransState → Prop} {t t' t'' : SixpTrans}

theorem refl (t : SixpTrans) : Onward R t t := ⟨rfl, rfl, rfl, rfl, .refl⟩

theorem trans (h : Onward R t t') (h' : Onward R t' t'') : Onward R t t'' where
  peerAddr := h'.peerAddr.trans h.peerAddr
  seqno := h'.seqno.trans h.seqno
  cmd := h'.cmd.trans h.cmd
  mode := h'.mode.trans h.mode
  state := h.state.trans (h.mode ▸ h'.state)

theorem mono (h : Onward R t t') (hR : ∀ mode a b, R mode a b → R' mode a b) : Onward R' t t' :=
  ⟨h.peerAddr, h.seqno, h.cmd, h.mode, Relation.ReflTransGen.mono (hR t.mode) _ _ h.state⟩

end SixpTrans.Onward

namespace Sixp

variable {maxTransactions : ℕ} {T : Set TransId} {s t u : Sixp} {b : TransId}
  {react : Sixp → Sixp} {R R' : SixpTransMode → SixpTransState → SixpTransState → Prop}

/-- The list has the blocks in use, each once; the others are set to zero; and no two
transactions have the same peer. -/
structure Consistent (s : Sixp) : Prop where
  listed : ∀ b, b ∈ s.transList ↔ s.used b
  nodup : s.transList.Nodup
  unused : ∀ b, s.used b = false → s.trans b = .zero
  available : ∀ b, s.used b → (s.trans b).state ≠ .unavailable ∧ (s.trans b).state ≠ .waitFree
  peers : ∀ b b', s.used b → s.used b' → (s.trans b).peerAddr = (s.trans b').peerAddr → b = b'

/-- The transactions there were have moved on or are over, and the others are new. -/
structure Evolves (R : SixpTransMode → SixpTransState → SixpTransState → Prop) (s t : Sixp) :
    Prop where
  allocs : ∀ b, s.allocs b ≤ t.allocs b
  same : ∀ b, s.used b → t.used b → t.allocs b = s.allocs b → (s.trans b).Onward R (t.trans b)
  fresh : ∀ b, t.used b → (s.used b → t.allocs b ≠ s.allocs b) →
    s.allocs b < t.allocs b ∧
      Relation.ReflTransGen (R (t.trans b).mode) .init (t.trans b).state

/-- Nothing but own transitions and new transactions; none outside `T` is over. -/
structure Grows (T : Set TransId) (s t : Sixp) : Prop extends Evolves OwnEdge s t where
  kept : ∀ b ∉ T, s.used b → t.used b ∧ t.allocs b = s.allocs b

/-- What a callback of the scheduling function may do. -/
def Tame (react : Sixp → Sixp) : Prop :=
  ∀ s, Consistent s → Consistent (react s) ∧ Grows ∅ s (react s)

namespace Evolves

/-- Transactions are as they were, and so are the blocks in use. -/
theorem of_eq (hallocs : t.allocs = s.allocs) (hused : t.used = s.used)
    (htrans : ∀ b, s.used b → (s.trans b).Onward R (t.trans b)) : Evolves R s t where
  allocs b := by rw [hallocs]
  same b hb _ _ := htrans b hb
  fresh := by
    intro b hb hne
    rw [hused] at hb
    exact absurd (by rw [hallocs]) (hne hb)

theorem refl (s : Sixp) : Evolves R s s := of_eq rfl rfl fun _ _ => .refl _

theorem trans (h : Evolves R s t) (h' : Evolves R t u) : Evolves R s u where
  allocs b := (h.allocs b).trans (h'.allocs b)
  same := by
    intro b hs hu heq
    have hle := h.allocs b
    have hle' := h'.allocs b
    by_cases ht : t.used b
    · exact (h.same b hs ht (by omega)).trans (h'.same b ht hu (by omega))
    · have hnew := (h'.fresh b hu fun hused => absurd hused ht).1
      omega
  fresh := by
    intro b hu hne
    have hle := h.allocs b
    by_cases hkept : t.used b ∧ u.allocs b = t.allocs b
    · obtain ⟨ht, heq⟩ := hkept
      have honward := h'.same b ht hu heq
      obtain ⟨hlt, hstate⟩ := h.fresh b ht fun hs => heq ▸ hne hs
      refine ⟨heq ▸ hlt, ?_⟩
      rw [honward.mode]
      exact hstate.trans honward.state
    · obtain ⟨hlt, hstate⟩ := h'.fresh b hu fun ht heq => hkept ⟨ht, heq⟩
      exact ⟨Nat.lt_of_le_of_lt hle hlt, hstate⟩

theorem mono (h : Evolves R s t) (hR : ∀ mode a b, R mode a b → R' mode a b) : Evolves R' s t where
  allocs := h.allocs
  same b hs ht heq := (h.same b hs ht heq).mono hR
  fresh b ht hne := 
    ⟨(h.fresh b ht hne).1, Relation.ReflTransGen.mono (hR _) _ _ (h.fresh b ht hne).2⟩

end Evolves

namespace Grows

theorem of_eq (hallocs : t.allocs = s.allocs) (hused : t.used = s.used)
    (htrans : ∀ b, s.used b → (s.trans b).Onward OwnEdge (t.trans b)) : Grows ∅ s t where
  toEvolves := .of_eq hallocs hused htrans
  kept b _ hb := ⟨by rwa [hused], by rw [hallocs]⟩

theorem refl (s : Sixp) : Grows ∅ s s := of_eq rfl rfl fun _ _ => .refl _

theorem trans (h : Grows T s t) (h' : Grows T t u) : Grows T s u where
  toEvolves := h.toEvolves.trans h'.toEvolves
  kept := by
    intro b hT hb
    obtain ⟨ht, heq⟩ := h.kept b hT hb
    obtain ⟨hu, heq'⟩ := h'.kept b hT ht
    exact ⟨hu, heq'.trans heq⟩

theorem mono_set (h : Grows ∅ s t) (T : Set TransId) : Grows T s t :=
  ⟨h.toEvolves, fun b _ => h.kept b (Set.notMem_empty b)⟩

theorem used (h : Grows ∅ s t) (hb : s.used b) : t.used b :=
  (h.kept b (Set.notMem_empty b) hb).1

end Grows

theorem tame_id : Tame id := fun s h => ⟨h, .refl s⟩

/-! ## One block changes -/

/-- A transaction moves on. -/
theorem Consistent.setTrans (h : Consistent s) (hb : s.used b) {t : SixpTrans}
    (hpeer : t.peerAddr = (s.trans b).peerAddr)
    (havailable : t.state ≠ .unavailable ∧ t.state ≠ .waitFree) : Consistent (s.setTrans b t) where
  listed := h.listed
  nodup := h.nodup
  unused := by
    intro b' hunused
    have hne : b' ≠ b := by
      rintro rfl
      rw [Sixp.setTrans, hb] at hunused
      cases hunused
    rw [setTrans_trans_of_ne s t hne]
    exact h.unused b' hunused
  available := by
    intro b' hused
    by_cases hb' : b' = b
    · rw [hb', setTrans_trans_self]
      exact havailable
    · rw [setTrans_trans_of_ne s t hb']
      exact h.available b' hused
  peers := by
    have hsame : ∀ b', ((s.setTrans b t).trans b').peerAddr = (s.trans b').peerAddr := by
      intro b'
      by_cases hb' : b' = b
      · rw [hb', setTrans_trans_self, hpeer]
      · rw [setTrans_trans_of_ne s t hb']
    intro b₁ b₂ h₁ h₂ heq
    rw [hsame, hsame] at heq
    exact h.peers b₁ b₂ h₁ h₂ heq

theorem onward_setTrans {t : SixpTrans} (ht : (s.trans b).Onward R t) (b' : TransId) :
    (s.trans b').Onward R ((s.setTrans b t).trans b') := by
  by_cases hb' : b' = b
  · rw [hb', setTrans_trans_self]
    exact ht
  · rw [setTrans_trans_of_ne s t hb']
    exact .refl _

/-- Neighbors, frames and registrations are no part of a transaction. -/
theorem Consistent.frame (h : Consistent s) (htrans : t.trans = s.trans) (hused : t.used = s.used)
    (hlist : t.transList = s.transList) : Consistent t := by
  refine ⟨?_, ?_, ?_, ?_, ?_⟩
  · rw [hlist, hused]
    exact h.listed
  · rw [hlist]
    exact h.nodup
  · rw [htrans, hused]
    exact h.unused
  · rw [htrans, hused]
    exact h.available
  · rw [htrans, hused]
    exact h.peers

theorem Evolves.frame (htrans : t.trans = s.trans) (hused : t.used = s.used)
    (hallocs : t.allocs = s.allocs) : Evolves R s t :=
  .of_eq hallocs hused fun _ _ => htrans ▸ .refl _

theorem Grows.frame (htrans : t.trans = s.trans) (hused : t.used = s.used)
    (hallocs : t.allocs = s.allocs) : Grows ∅ s t :=
  .of_eq hallocs hused fun _ _ => htrans ▸ .refl _

/-- The contents of a block after a transition. -/
theorem transit_of_not {newState : SixpTransState}
    (h : mayTransit (s.trans b).mode (s.trans b).state newState = false) :
    s.sixpTransTransitState b newState = (false, s) := by
  simp [sixpTransTransitState, h]

/-- A transition that is allowed changes the state, the timer and perhaps a neighbor. -/
theorem transit_of {newState : SixpTransState}
    (h : mayTransit (s.trans b).mode (s.trans b).state newState) :
    (s.sixpTransTransitState b newState).1 = true ∧
      (s.sixpTransTransitState b newState).2.trans =
        (s.setTrans b { s.trans b with state := newState, timer := some .process }).trans ∧
      (s.sixpTransTransitState b newState).2.used = s.used ∧
      (s.sixpTransTransitState b newState).2.transList = s.transList ∧
      (s.sixpTransTransitState b newState).2.allocs = s.allocs := by
  simp only [sixpTransTransitState, h, if_true, true_and]
  split <;> exact ⟨rfl, rfl, rfl, rfl⟩

/-- **A transition**, allowed or not. -/
theorem Consistent.transit (h : Consistent s) (hb : s.used b) (newState : SixpTransState)
    (hR : ∀ mode state, mayTransit mode state newState → R mode state newState) :
    Consistent (s.sixpTransTransitState b newState).2 ∧
      Evolves R s (s.sixpTransTransitState b newState).2 ∧
      (s.sixpTransTransitState b newState).2.used = s.used ∧
      (s.sixpTransTransitState b newState).2.allocs = s.allocs := by
  by_cases hmay : mayTransit (s.trans b).mode (s.trans b).state newState
  · obtain ⟨-, htrans, hused, hlist, hallocs⟩ := transit_of hmay
    obtain ⟨hnew, hwait, -⟩ := mayTransit_new hmay
    have honward : (s.trans b).Onward R
        { s.trans b with state := newState, timer := some .process } :=
      ⟨rfl, rfl, rfl, rfl, .single (hR _ _ hmay)⟩
    refine ⟨(h.setTrans hb honward.peerAddr ⟨hnew, hwait⟩).frame htrans hused hlist,
      .of_eq hallocs hused fun b' _ => ?_, hused, hallocs⟩
    rw [htrans]
    exact onward_setTrans honward b'
  · rw [transit_of_not (by simpa using hmay)]
    exact ⟨h, .refl s, rfl, rfl⟩

theorem Consistent.own_transit (h : Consistent s) (hb : s.used b) {newState : SixpTransState}
    (hnew : newState.received = false) :
    Consistent (s.sixpTransTransitState b newState).2 ∧
      Grows ∅ s (s.sixpTransTransitState b newState).2 := by
  obtain ⟨hcons, hevolves, hused, hallocs⟩ :=
    h.transit (R := OwnEdge) hb newState fun mode state hmay => ⟨hmay, hnew⟩
  exact ⟨hcons, hevolves, fun b' _ hb' => ⟨by rwa [hused], by rw [hallocs]⟩⟩

/-! ## Callbacks and the MAC layer -/

theorem Consistent.setCallback (h : Consistent s) (hb : s.used b) (func : Bool) :
    Consistent (s.sixpTransSetCallback b func) ∧ Grows ∅ s (s.sixpTransSetCallback b func) ∧
      ((s.sixpTransSetCallback b func).trans b).state = (s.trans b).state := by
  have hset : ∀ callback, Consistent (s.setTrans b { s.trans b with callback := callback }) ∧
      Grows ∅ s (s.setTrans b { s.trans b with callback := callback }) := by
    intro callback
    have honward : (s.trans b).Onward OwnEdge { s.trans b with callback := callback } :=
      ⟨rfl, rfl, rfl, rfl, .refl⟩
    exact ⟨h.setTrans hb rfl (h.available b hb),
      .of_eq rfl rfl fun b' _ => onward_setTrans honward b'⟩
  cases func with
  | false =>
    obtain ⟨hcons, hgrows⟩ := hset none
    exact ⟨hcons, hgrows, by simp [sixpTransSetCallback]⟩
  | true =>
    obtain ⟨hcons, hgrows⟩ := hset (some s.registered)
    refine ⟨hcons.frame rfl rfl rfl, hgrows.trans (.frame rfl rfl rfl), ?_⟩
    simp [sixpTransSetCallback, Sixp.setTrans]

theorem Consistent.invokeCallback (h : Consistent s) (hreact : Tame react) (b : TransId) :
    Consistent (s.sixpTransInvokeCallback react b) ∧
      Grows ∅ s (s.sixpTransInvokeCallback react b) := by
  simp only [sixpTransInvokeCallback]
  split
  · exact ⟨h, .refl s⟩
  · rename_i r _
    have hcons : Consistent { s with invoked := s.invoked ++ [r] } := h.frame rfl rfl rfl
    have hframe : Grows ∅ s { s with invoked := s.invoked ++ [r] } := .frame rfl rfl rfl
    obtain ⟨hafter, hgrows⟩ := hreact _ hcons
    exact ⟨hafter, hframe.trans hgrows⟩

/-- `mac_callback` on a block that is not in use changes nothing. -/
theorem macCallback_unused (hb : s.trans b = .zero) (status : MacStatus) :
    s.macCallback react b status = s := by
  have hsame : Function.update s.trans b .zero = s.trans := by
    rw [← hb]
    exact Function.update_eq_self b s.trans
  cases status <;>
    simp [Sixp.macCallback, hb, SixpTrans.zero, stateAfterSent, sixpTransInvokeCallback,
      sixpTransSetCallback, Sixp.setTrans] <;>
    simpa [SixpTrans.zero] using congrArg (fun trans => { s with trans := trans }) hsame

/-- **The MAC layer calls back**, with whatever block. -/
theorem Consistent.macCallback (h : Consistent s) (hreact : Tame react) (b : TransId)
    (status : MacStatus) :
    Consistent (s.macCallback react b status) ∧ Grows ∅ s (s.macCallback react b status) := by
  by_cases hb : s.used b
  · have hend : ∀ t, Consistent t → Grows ∅ s t →
        let u := (t.sixpTransInvokeCallback react b).sixpTransSetCallback b false
        Consistent u ∧ Grows ∅ s u := by
      intro t ht hst
      obtain ⟨hinvoked, hgrows⟩ := ht.invokeCallback hreact b
      obtain ⟨hset, hset', -⟩ := hinvoked.setCallback (hgrows.used (hst.used hb)) false
      exact ⟨hset, (hst.trans hgrows).trans hset'⟩
    have hnew : (stateAfterSent status (s.trans b).state).received = false ∨
        stateAfterSent status (s.trans b).state = (s.trans b).state := by
      cases status <;> cases (s.trans b).state <;> simp [stateAfterSent, SixpTransState.received]
    simp only [Sixp.macCallback, (h.available b hb).2, if_false]
    by_cases hsame : stateAfterSent status (s.trans b).state = (s.trans b).state
    · simp only [hsame, ne_eq, not_true_eq_false, if_false, Bool.not_true, Bool.false_eq_true]
      exact hend s h (.refl s)
    · simp only [ne_eq, hsame, not_false_eq_true, if_true]
      obtain ⟨hcons, hgrows⟩ := h.own_transit hb (hnew.resolve_right hsame)
      split
      · obtain ⟨hcons', hgrows'⟩ := hcons.own_transit (hgrows.used hb) (b := b)
          (show SixpTransState.terminating.received = false from rfl)
        exact ⟨hcons', hgrows.trans hgrows'⟩
      · exact hend _ hcons hgrows
  · rw [macCallback_unused (h.unused b (by simpa using hb))]
    exact ⟨h, .refl s⟩

theorem Consistent.sixtopOutput (h : Consistent s) (hreact : Tame react) (b : TransId)
    (mac : MacSend) :
    Consistent (s.sixtopOutput react b mac).2 ∧ Grows ∅ s (s.sixtopOutput react b mac).2 := by
  cases mac with
  | refused called =>
    cases called with
    | false => exact ⟨h, .refl s⟩
    | true => exact h.macCallback hreact b .errFatal
  | held => exact ⟨h.frame rfl rfl rfl, .frame rfl rfl rfl⟩
  | returned status => exact h.macCallback hreact b status

/-! ## The end of a transaction -/

theorem Consistent.freed (h : Consistent s) (b : TransId) :
    Consistent (s.freed b) ∧ Grows {b} s (s.freed b) := by
  have hused : ∀ b', (s.freed b).used b' → b' ≠ b ∧ s.used b' := by
    intro b' hb'
    by_cases hne : b' = b
    · simp [Sixp.freed, hne] at hb'
    · exact ⟨hne, by simpa [Sixp.freed, hne] using hb'⟩
  have htrans : ∀ b', b' ≠ b → (s.freed b).trans b' = s.trans b' := by
    intro b' hne
    simp [Sixp.freed, hne]
  refine ⟨⟨?_, h.nodup.erase b, ?_, ?_, ?_⟩, ⟨⟨fun _ => le_rfl, ?_, ?_⟩, ?_⟩⟩
  · intro b'
    by_cases hne : b' = b
    · simp [Sixp.freed, hne, h.nodup.mem_erase_iff]
    · simp [Sixp.freed, hne, h.nodup.mem_erase_iff, h.listed b']
  · intro b' hunused
    by_cases hne : b' = b
    · simp [Sixp.freed, hne]
    · rw [htrans b' hne]
      exact h.unused b' (by simpa [Sixp.freed, hne] using hunused)
  · intro b' hb'
    obtain ⟨hne, hb'⟩ := hused b' hb'
    rw [htrans b' hne]
    exact h.available b' hb'
  · intro b₁ b₂ h₁ h₂ heq
    obtain ⟨hne₁, h₁⟩ := hused b₁ h₁
    obtain ⟨hne₂, h₂⟩ := hused b₂ h₂
    rw [htrans b₁ hne₁, htrans b₂ hne₂] at heq
    exact h.peers b₁ b₂ h₁ h₂ heq
  · intro b' _ hb' _
    rw [htrans b' (hused b' hb').1]
    exact .refl _
  · intro b' hb' hne
    exact absurd rfl (hne (hused b' hb').2)
  · intro b' hne hb'
    exact ⟨by simpa [Sixp.freed, show b' ≠ b from hne] using hb', rfl⟩

/-- `process_trans`. -/
theorem Consistent.processTrans (h : Consistent s) (hb : s.used b) :
    Consistent (s.processTrans b) ∧ Grows {b} s (s.processTrans b) := by
  by_cases hterm : (s.trans b).state = .terminating
  · rw [processTrans_terminating hterm]
    exact h.freed b
  · have hset : ∀ t, (s.trans b).Onward OwnEdge t → t.state ≠ .unavailable ∧ t.state ≠ .waitFree →
        Consistent (s.setTrans b t) ∧ Grows {b} s (s.setTrans b t) := by
      intro t ht havailable
      have hgrows : Grows ∅ s (s.setTrans b t) := .of_eq rfl rfl fun b' _ => onward_setTrans ht b'
      exact ⟨h.setTrans hb ht.peerAddr havailable, hgrows.mono_set {b}⟩
    simp only [Sixp.processTrans, setTrans_trans_self, hterm, if_false]
    split
    · have hstep : OwnEdge (s.trans b).mode (s.trans b).state .terminating := ⟨rfl, rfl⟩
      have hend := hset { s.trans b with state := .terminating, timer := some .process }
        ⟨rfl, rfl, rfl, rfl, .single hstep⟩ (by simp)
      simpa [transit_terminating, Sixp.setTrans] using hend
    · have hend := hset { s.trans b with timer := some .timeout } ⟨rfl, rfl, rfl, rfl, .refl⟩
        (h.available b hb)
      simpa [Sixp.setTrans, hterm] using hend

theorem Consistent.abort (h : Consistent s) (hb : s.used b) (hreact : Tame react) :
    Consistent (s.sixpTransAbort react b) ∧ Grows {b} s (s.sixpTransAbort react b) := by
  obtain ⟨hterm, hterm'⟩ := h.own_transit hb (show SixpTransState.terminating.received = false from rfl)
  obtain ⟨hinvoked, hinvoked'⟩ := hterm.invokeCallback hreact b
  obtain ⟨hend, hend'⟩ := hinvoked.processTrans (hinvoked'.used (hterm'.used hb))
  exact ⟨hend, ((hterm'.trans hinvoked').mono_set {b}).trans hend'⟩

/-! ## Sending -/

/-- **A new transaction**, with a peer that has none. -/
theorem Consistent.alloc (h : Consistent s) {sfKnown cellListEmpty : Bool} {peerAddr : LinkAddr}
    {seqno cmd : BitVec 8}
    (halloc : s.sixpTransAlloc maxTransactions sfKnown peerAddr seqno cmd cellListEmpty =
      some (b, t)) :
    Consistent t ∧ Grows ∅ s t ∧ s.used b = false ∧ t.used b ∧
      t.trans b = ⟨peerAddr, seqno, cmd, .init, determineTransMode cmd cellListEmpty, none,
        some .timeout⟩ ∧
      t.allocs = Function.update s.allocs b (s.allocs b + 1) := by
  simp only [sixpTransAlloc] at halloc
  split_ifs at halloc with _ hpeer
  obtain ⟨k, hfind, heq⟩ := Option.map_eq_some_iff.mp halloc
  obtain ⟨rfl, rfl⟩ := Prod.mk.inj heq
  have hfree : s.used k = false := by simpa using List.find?_some hfind
  have hnone : ∀ b', s.used b' → (s.trans b').peerAddr ≠ peerAddr := by
    intro b' hb' heq
    refine hpeer (List.find?_isSome.mpr ⟨b', (h.listed b').mpr hb', ?_⟩)
    simpa using heq
  have hne : ∀ b', s.used b' → b' ≠ k := by
    rintro b' hb' rfl
    rw [hfree] at hb'
    cases hb'
  refine ⟨⟨?_, ?_, ?_, ?_, ?_⟩, ⟨⟨?_, ?_, ?_⟩, ?_⟩, hfree, by simp, by simp, rfl⟩
  · intro b'
    by_cases hb' : b' = k <;> simp [hb', h.listed]
  · refine List.nodup_append'.mpr ⟨h.nodup, by simp, ?_⟩
    simp [h.listed, hfree]
  · intro b' hunused
    have hb' : b' ≠ k := by
      rintro rfl
      simp at hunused
    have hold : s.used b' = false := by simpa [hb'] using hunused
    simpa [Sixp.setTrans, hb'] using h.unused b' hold
  · intro b' hused
    by_cases hb' : b' = k
    · simp [hb']
    · have hold : s.used b' := by simpa [hb'] using hused
      simpa [Sixp.setTrans, hb'] using h.available b' hold
  · intro b₁ b₂ h₁ h₂ heq
    by_cases hb₁ : b₁ = k <;> by_cases hb₂ : b₂ = k
    · rw [hb₁, hb₂]
    · have hold : s.used b₂ := by simpa [hb₂] using h₂
      simp only [hb₁, setTrans_trans_self, setTrans_trans_of_ne s _ hb₂] at heq
      exact absurd heq.symm (hnone b₂ hold)
    · have hold : s.used b₁ := by simpa [hb₁] using h₁
      simp only [hb₂, setTrans_trans_self, setTrans_trans_of_ne s _ hb₁] at heq
      exact absurd heq (hnone b₁ hold)
    · have hold₁ : s.used b₁ := by simpa [hb₁] using h₁
      have hold₂ : s.used b₂ := by simpa [hb₂] using h₂
      simp only [setTrans_trans_of_ne s _ hb₁, setTrans_trans_of_ne s _ hb₂] at heq
      exact h.peers b₁ b₂ hold₁ hold₂ heq
  · intro b'
    by_cases hb' : b' = k <;> simp [hb']
  · intro b' hs _ _
    simp only [setTrans_trans_of_ne s _ (hne b' hs)]
    exact .refl _
  · intro b' hb' hnew
    by_cases hk : b' = k
    · subst hk
      simp only [setTrans_trans_self, Function.update_self]
      exact ⟨Nat.lt_succ_self _, .refl⟩
    · have hold : s.used b' := by simpa [hk] using hb'
      exact absurd (by simp [hk]) (hnew hold)
  · intro b' _ hb'
    simp [hne b' hb', hb']

/-- The end of `sixp_output`: only a request's own transaction may be over. -/
theorem Consistent.sendTrans (h : Consistent s) (hb : s.used b) (hreact : Tame react)
    (args : OutputArgs) :
    Consistent (s.sendTrans react args b) ∧ Grows {b} s (s.sendTrans react args b) ∧
      (args.type ≠ .request → Grows ∅ s (s.sendTrans react args b)) := by
  obtain ⟨hset, hset', -⟩ := h.setCallback hb args.func
  obtain ⟨hout, hout'⟩ := hset.sixtopOutput hreact b args.mac
  simp only [Sixp.sendTrans]
  generalize (s.sixpTransSetCallback b args.func).sixtopOutput react b args.mac = r at *
  obtain ⟨sent, t⟩ := r
  simp only at hout hout' ⊢
  have hst := hset'.trans hout'
  have ht := hst.used hb
  have hlast : ∀ u, Consistent u → Grows ∅ t u →
      Consistent u ∧ Grows {b} s u ∧ (args.type ≠ .request → Grows ∅ s u) :=
    fun u hu hgrows => ⟨hu, (hst.trans hgrows).mono_set {b}, fun _ => hst.trans hgrows⟩
  split
  · split
    · have hseqno : ∀ f, Consistent (t.updateSeqno args.destAddr f) := fun f => hout.frame rfl rfl rfl
      obtain ⟨hsend, hsend'⟩ := (hseqno fun n =>
        if args.code = sixpPktCmdClear then 0 else incrementSeqno n).own_transit (b := b) ht
          (show SixpTransState.requestSending.received = false from rfl)
      have hframe : Grows ∅ t (t.updateSeqno args.destAddr fun n =>
        if args.code = sixpPktCmdClear then 0 else incrementSeqno n) := .frame rfl rfl rfl
      exact hlast _ hsend (hframe.trans hsend')
    · obtain ⟨hsend, hsend'⟩ := hout.own_transit ht
        (show SixpTransState.responseSending.received = false from rfl)
      exact hlast _ hsend hsend'
    · obtain ⟨hsend, hsend'⟩ := hout.own_transit ht
        (show SixpTransState.confirmationSending.received = false from rfl)
      exact hlast _ hsend hsend'
    · exact hlast t hout (.refl t)
  · split
    · rename_i htype
      obtain ⟨habort, habort'⟩ := hout.abort ht hreact
      exact ⟨habort, (hst.mono_set {b}).trans habort', fun hne => absurd htype hne⟩
    · exact hlast t hout (.refl t)

theorem Consistent.used_of_find (h : Consistent s) {addr : LinkAddr}
    (hfind : s.sixpTransFind addr = some b) : s.used b :=
  (h.listed b).mp (List.mem_of_find?_eq_some hfind)

theorem outputNbr_frame {args : OutputArgs} {o : Option TransId}
    (hnbr : s.outputNbr args o = some t) : t.trans = s.trans ∧ t.used = s.used ∧
      t.transList = s.transList ∧ t.allocs = s.allocs := by
  simp only [Sixp.outputNbr] at hnbr
  split_ifs at hnbr
  all_goals
    cases hnbr
    exact ⟨rfl, rfl, rfl, rfl⟩

/-- A packet that is no request belongs to a transaction there is. -/
theorem Consistent.used_of_outputTrans (h : Consistent s) {type : SixpPktType} {destAddr : LinkAddr}
    (ho : s.outputTrans type destAddr = some (some b)) : s.used b ∧ type ≠ .request := by
  simp only [Sixp.outputTrans] at ho
  split at ho
  · cases ho
  · rename_i hfind
    split_ifs at ho
    cases ho
    exact ⟨h.used_of_find hfind, by simp⟩
  · rename_i hfind
    split_ifs at ho
    cases ho
    exact ⟨h.used_of_find hfind, by simp⟩
  · cases ho

/-- Only a request has no transaction yet. -/
theorem request_of_outputTrans {type : SixpPktType} {destAddr : LinkAddr}
    (ho : s.outputTrans type destAddr = some none) : type = .request := by
  simp only [Sixp.outputTrans] at ho
  split at ho
  · rfl
  · split_ifs at ho
    cases ho
  · split_ifs at ho
    cases ho
  · cases ho

/-- **One call of `sixp_output`**, with callbacks that are tame. -/
theorem tame_sixpOutput (hreact : Tame react) (args : OutputArgs) :
    Tame fun s => (s.sixpOutput maxTransactions react args).2 := by
  intro s h
  simp only
  rcases @sixpOutput_cases maxTransactions react args s with heq |
    ⟨o, t, htrans, hnbr, hcases⟩
  · rw [heq]
    exact ⟨h, .refl s⟩
  obtain ⟨htrans', hused, hlist, hallocs⟩ := outputNbr_frame hnbr
  have ht : Consistent t := h.frame htrans' hused hlist
  have hst : Grows ∅ s t := .frame htrans' hused hallocs
  rcases hcases with heq | ⟨b, ho, heq⟩ | ⟨ho, b, u, halloc, heq⟩
  · rw [heq]
    exact ⟨ht, hst⟩
  · rw [heq]
    obtain ⟨hb, htype⟩ := h.used_of_outputTrans (ho ▸ htrans)
    obtain ⟨hsend, -, hgrows⟩ := ht.sendTrans (hst.used hb) hreact args
    exact ⟨hsend, hst.trans (hgrows htype)⟩
  · rw [heq]
    obtain ⟨hu, htu, hfree, hb, -, -⟩ := ht.alloc halloc
    obtain ⟨hsend, hgrows, -⟩ := hu.sendTrans hb hreact args
    have hall := ((hst.trans htu).mono_set {b}).trans hgrows
    refine ⟨hsend, hall.toEvolves, fun b' _ hb' => hall.kept b' ?_ hb'⟩
    -- the block was not in use before
    rintro rfl
    rw [← hused, hfree] at hb'
    cases hb'

mutual

/-- A call with all the calls made in callbacks. -/
theorem tame_run : ∀ call : OutputCall, Tame (call.run maxTransactions)
  | .mk args reaction => by
    simpa only [OutputCall.run] using tame_sixpOutput (tame_runCalls reaction) args

theorem tame_runCalls : ∀ calls : List OutputCall, Tame (runCalls maxTransactions calls)
  | [] => tame_id
  | call :: calls => by
    intro s h
    simp only [runCalls]
    obtain ⟨hcons, hgrows⟩ := tame_run call s h
    obtain ⟨hcons', hgrows'⟩ := tame_runCalls calls _ hcons
    exact ⟨hcons', hgrows.trans hgrows'⟩

end

end Sixp

end Asap.Sixtop
