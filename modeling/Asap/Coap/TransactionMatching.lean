import Asap.Coap.TransactionRun
import Asap.Lib.Run

/-!
# Matching of CoAP transactions

Each event, in a state where the list agrees with the ledger, and then every run of events.

## Main results

* `TransactionInv.retransmit`, `TransactionInv.close` — a timeout, and a datagram that closes.
* `coap_transaction_matching` — every run whose events close the transactions they should.
-/

namespace Asap.Coap

open Lib List Option

variable {E C : Type}

/-! ## The events -/

/-- What was there before is kept, but for one transaction. -/
structure KeepsBut (b : ℕ) (s s' : Transactions E C) : Prop where
  next : (ledger s.trace).next ≤ (ledger s'.trace).next
  spares : ∀ i < (ledger s.trace).next, i ≠ (ledger s.trace).current b → Spares i s s'

section Events

variable {cfg : TransactionConfig} {s s' s'' : Transactions E C} {b i : ℕ} {life : Life E C}

theorem OnBlock.keepsBut (h : OnBlock b s s') (hlist : s'.list ⊆ s.list) : KeepsBut b s s' where
  next := le_of_eq h.next.symm
  spares _ _ hi := h.spares hlist hi

theorem OnBlock.lives_current (h : OnBlock b s s') :
    (ledger s'.trace).lives ((ledger s.trace).current b) = Coap.lifeOf s' b := by
  rw [Coap.lifeOf, h.current]

theorem KeepsBut.trans (h : KeepsBut b s s') (h' : Keeps s' s'') : KeepsBut b s s'' where
  next := le_trans h.next h'.next
  spares i hi hne := (h.spares i hi hne).trans (h'.spares i (lt_of_lt_of_le hi h.next))

/-- A confirmable message whose timer has expired once more. -/
theorem Open.counter_succ {t : CoapTransaction E C} (h : Open cfg t life) :
    (t.retransCounter + 1).toNat = t.retransCounter.toNat + 1 := by
  have hcounter := h.counter
  have hfits := cfg.counter_fits
  rw [BitVec.toNat_add]
  apply Nat.mod_eq_of_lt
  change t.retransCounter.toNat + 1 < 256
  omega

/-- The interval fits after it is doubled. -/
theorem Open.interval_double {t : CoapTransaction E C} (_ : Open cfg t life)
    (hlt : t.retransCounter.toNat < cfg.maxRetransmit) {first : ℕ}
    (hfirst : Doubles cfg first life.intervals life.sends)
    (hinterval : t.retransInterval.toNat = first * 2 ^ t.retransCounter.toNat) :
    (t.retransInterval <<< 1).toNat = first * 2 ^ (t.retransCounter.toNat + 1) := by
  have hpow : 2 ^ (t.retransCounter.toNat + 1) ≤ 2 ^ cfg.maxRetransmit :=
    Nat.pow_le_pow_right (by decide) hlt
  have hfits : first * 2 ^ (t.retransCounter.toNat + 1) < 2 ^ 32 :=
    calc first * 2 ^ (t.retransCounter.toNat + 1)
        ≤ (cfg.responseTimeoutTicks + cfg.backoffMask) * 2 ^ cfg.maxRetransmit :=
          Nat.mul_le_mul (le_of_lt hfirst.2.1) hpow
      _ < 2 ^ 32 := cfg.interval_fits
  rw [BitVec.toNat_shiftLeft, hinterval, Nat.shiftLeft_eq, Nat.mul_assoc, ← Nat.pow_succ]
  exact Nat.mod_eq_of_lt hfits

theorem Doubles.succ {first n : ℕ} {intervals : List (BitVec 32)} {interval : BitVec 32}
    (h : Doubles cfg first intervals n) (hinterval : interval.toNat = first * 2 ^ n) :
    Doubles cfg first (intervals ++ [interval]) (n + 1) := by
  refine ⟨h.1, h.2.1, ?_⟩
  rw [map_append, h.2.2, range_succ, map_append, map_singleton,
    map_singleton, hinterval]

section

variable (h : TransactionInv cfg [] s)

include h

/-- **A timeout** sends the message again, or frees the block and calls back. -/
theorem TransactionInv.retransmit (htimer : s.timers b = true)
    (hown : (s.cells b).retransCounter.toNat = cfg.maxRetransmit →
      (lifeOf s b).map Life.callback = some (s.cells b).callback) :
    TransactionInv cfg [] (coapRetransmitTransaction cfg s b) ∧
      KeepsBut b s (coapRetransmitTransaction cfg s b) ∧
      ∃ life life', lifeOf s b = some life ∧
        (ledger (coapRetransmitTransaction cfg s b).trace).lives ((ledger s.trace).current b) =
          some life' ∧
        (life'.sends = life.sends + 1 ∨ life'.freed = 1) := by
  have hb := h.timers b htimer
  obtain ⟨life, hlife, hopen, -⟩ := h.opened b hb not_mem_nil
  obtain ⟨s₀, hs₀⟩ : ∃ s₀, ((s.setTimer b false).modify b fun t =>
      { t with retransCounter := t.retransCounter + 1 }) = s₀ := ⟨_, rfl⟩
  have hblock₀ : OnBlock b s s₀ := by
    rw [← hs₀]
    exact (onBlock_setTimer b s false).trans (onBlock_modify b _ _)
  have hlist₀ : s₀.list = s.list := by rw [← hs₀]; rfl
  have hlife₀ : lifeOf s₀ b = lifeOf s b := by rw [← hs₀]; rfl
  have hcells₀ : s₀.cells b =
      { s.cells b with retransCounter := (s.cells b).retransCounter + 1 } := by
    rw [← hs₀]
    exact Function.update_self _ _ _
  have hcon : (s₀.cells b).type = .con := by
    rw [hcells₀]
    exact hopen.con
  have hcount : (s₀.cells b).retransCounter.toNat = (s.cells b).retransCounter.toNat + 1 := by
    rw [hcells₀]
    exact hopen.counter_succ
  have hsends := hopen.sends
  obtain ⟨first, hdoubles, hinterval⟩ := hopen.intervals
  rw [coapRetransmitTransaction, hs₀]
  by_cases hlast : (s.cells b).retransCounter.toNat = cfg.maxRetransmit
  · -- the last timeout
    obtain ⟨hblock₁, hlist₁, htimer₁, hlife₁⟩ :=
      @coapSendTransaction_last E C cfg s₀ b 0 hcon (by omega)
    rw [hlife₀, hlife, map_some] at hlife₁
    rw [hlist₀] at hlist₁
    have hcallback : life.callback = (s.cells b).callback := by
      have hown := hown hlast
      rw [hlife, map_some] at hown
      exact Option.some.inj hown
    have hblock := hblock₀.trans hblock₁
    have hfreed : life.freed + 1 = 1 := by rw [hopen.freed]
    refine ⟨((h.hold hb).leave not_mem_nil hblock hlist₁ htimer₁ ⟨_, hlife₁, ?_⟩).1,
      hblock.keepsBut ?_, life, _, hlife, hblock.lives_current.trans hlife₁, .inr hfreed⟩
    · refine ⟨hfreed, fun _ => ⟨?_, ⟨first, hdoubles⟩, false, ?_, fun _ => ?_⟩,
        fun h => absurd hopen.type h⟩
      · change life.sends ≤ 1 + cfg.maxRetransmit
        omega
      · change life.calls ++ _ = life.callback.toList.map _
        rw [hopen.calls, nil_append, hcells₀, hcallback]
      · change life.sends = 1 + cfg.maxRetransmit
        omega
    · rw [hlist₁]
      exact erase_subset
  · have hcounter := hopen.counter
    obtain ⟨interval, hinterval₁, hblock₁, hlist₁, htimer₁, hcells₁, hlife₁⟩ :=
      @coapSendTransaction_con E C cfg s₀ b 0 hcon (by omega)
    rw [hlife₀, hlife, map_some] at hlife₁
    rw [hlist₀] at hlist₁
    have hblock := hblock₀.trans hblock₁
    have hzero : (s₀.cells b).retransCounter ≠ 0 := by
      intro hzero
      rw [hzero] at hcount
      exact absurd hcount.symm (Nat.succ_ne_zero _)
    rw [if_neg hzero, hcells₀] at hinterval₁
    have hdouble : interval.toNat = first * 2 ^ ((s.cells b).retransCounter.toNat + 1) := by
      rw [hinterval₁]
      exact hopen.interval_double (by omega) hdoubles hinterval
    refine ⟨(h.hold hb).settle hblock hlist₁ ⟨_, hlife₁, ?_, htimer₁⟩, hblock.keepsBut ?_, life, _,
      hlife, hblock.lives_current.trans hlife₁, .inl rfl⟩
    · rw [hcells₁]
      refine ⟨?_, ?_, hopen.type, hcon, ?_, ?_, ⟨first, ?_, ?_⟩, hopen.freed, hopen.calls⟩
      · change life.endpoint = (s₀.cells b).endpoint
        rw [hcells₀]
        exact hopen.endpoint
      · change life.mid = (s₀.cells b).mid
        rw [hcells₀]
        exact hopen.mid
      · change (s₀.cells b).retransCounter.toNat ≤ cfg.maxRetransmit
        omega
      · change life.sends + 1 = (s₀.cells b).retransCounter.toNat + 1
        omega
      · change Doubles cfg first (life.intervals ++ [interval]) (life.sends + 1)
        exact hdoubles.succ (by rw [hdouble, hsends])
      · change interval.toNat = first * 2 ^ (s₀.cells b).retransCounter.toNat
        rw [hdouble, hcount]
    · rw [hlist₁]
      exact fun _ hmem => hmem

/-- **A datagram** that has the message id of a transaction closes it. -/
theorem TransactionInv.close (hb : b ∈ s.list)
    (hown : (lifeOf s b).map Life.callback = some (s.cells b).callback) :
    TransactionInv cfg [] (callBack (coapClearTransaction s b) b (s.cells b).callback true) ∧
      KeepsBut b s (callBack (coapClearTransaction s b) b (s.cells b).callback true) := by
  obtain ⟨life, hlife, hopen, -⟩ := h.opened b hb not_mem_nil
  obtain ⟨hblock₁, hlist₁, htimer₁, hlife₁⟩ := coapClearTransaction_spec s b
  obtain ⟨hblock₂, hlist₂, -, htimers₂, hlife₂⟩ :=
    callBack_spec (coapClearTransaction s b) b (s.cells b).callback true
  rw [hlife₁, hlife, map_some, map_some] at hlife₂
  rw [hlife, map_some] at hown
  have hblock := hblock₁.trans hblock₂
  have hlist := hlist₂.trans hlist₁
  have hsends := hopen.sends
  have hcounter := hopen.counter
  refine ⟨((h.hold hb).leave not_mem_nil hblock hlist ?_ ⟨_, hlife₂, ?_⟩).1, hblock.keepsBut ?_⟩
  · rw [htimers₂, htimer₁]
  · obtain ⟨first, hdoubles, -⟩ := hopen.intervals
    refine ⟨?_, fun _ => ⟨?_, ⟨first, hdoubles⟩, true, ?_, fun h => absurd h.symm Bool.false_ne_true⟩,
      fun h => absurd hopen.type h⟩
    · change life.freed + 1 = 1
      rw [hopen.freed]
    · change life.sends ≤ 1 + cfg.maxRetransmit
      omega
    · change life.calls ++ _ = life.callback.toList.map _
      rw [hopen.calls, nil_append, Option.some.inj hown]
  · rw [hlist]
    exact erase_subset

/-- **A request** has a transaction until it is answered. -/
theorem TransactionInv.request {src : E} {message : CoapMessage Slice}
    {handled : Handled E C} (hcode : 1 ≤ message.code.toNat ∧ message.code.toNat ≤ 4) :
    TransactionInv cfg [] (coapReceive cfg s src message handled) ∧
      Keeps s (coapReceive cfg s src message handled) := by
  rw [coapReceive, if_pos hcode]
  cases hnew : coapNewTransaction cfg s message.mid src with
  | none => exact ⟨h, .refl s⟩
  | some bs =>
    obtain ⟨b, s₁⟩ := bs
    obtain ⟨hinv₁, hkeeps₁⟩ := h.create hnew
    obtain ⟨⟨-, hb⟩, -⟩ := coapNewTransaction_spec hnew
    obtain ⟨hlife₁, hcurrent₁⟩ := lifeOf_new hnew
    obtain ⟨hinv₂, hkeeps₂⟩ := hinv₁.openAll handled.opened
    obtain ⟨s₂, hs₂⟩ : ∃ s₂, handled.opened.foldl (Coap.openTransaction cfg) s₁ = s₂ := ⟨_, rfl⟩
    rw [hs₂] at hinv₂ hkeeps₂
    have hmem₁ : b ∈ s₁.list := hinv₁.inList b mem_cons_self
    obtain ⟨-, -, -, hcurrent₂⟩ := hkeeps₂.block b hmem₁
    have hlife₂ : lifeOf s₂ b = some (newLife src message.mid) := by
      rw [← hlife₁, lifeOf, hcurrent₂, (hkeeps₂.spares _ (hinv₁.current b hmem₁)).1, lifeOf]
    have hkeeps := hkeeps₁.trans hkeeps₂
    have hcurrent : (ledger s.trace).next ≤ (ledger s₂.trace).current b := by
      rw [hcurrent₂]
      exact hcurrent₁
    simp only [Option.elim, hs₂]
    by_cases hreply : handled.reply = true
    · rw [if_pos hreply]
      obtain ⟨type, htype⟩ : ∃ type, (if message.type = .con then CoapType.ack else .non) = type :=
        ⟨_, rfl⟩
      have hother : type ≠ .con := by
        rw [← htype]
        by_cases hcon : message.type = .con
        · rw [if_pos hcon]
          decide
        · rw [if_neg hcon]
          decide
      rw [htype]
      obtain ⟨hblock₃, hlist₃, -, hcells₃, hlife₃⟩ := setMessage_spec s₂ b type
      obtain ⟨hblock₄, hlist₄, htimer₄, hlife₄⟩ :=
        @coapSendTransaction_other E C cfg (setMessage s₂ b type) b 0 (by rw [hcells₃]; exact hother)
      rw [hlife₃, hlife₂, map_some, map_some] at hlife₄
      rw [hlist₃] at hlist₄
      have hblock := hblock₃.trans hblock₄
      refine ⟨(hinv₂.leave not_mem_nil hblock hlist₄ htimer₄ ⟨_, hlife₄, ?_⟩).1,
        hkeeps.onBlock hb hcurrent hblock (.inr hlist₄)⟩
      exact ⟨rfl, fun h => absurd h hother, fun _ => ⟨Nat.le_refl 1, rfl⟩⟩
    · rw [if_neg hreply]
      obtain ⟨hblock₃, hlist₃, htimer₃, hlife₃⟩ := coapClearTransaction_spec s₂ b
      rw [hlife₂, map_some] at hlife₃
      refine ⟨(hinv₂.leave not_mem_nil hblock₃ hlist₃ htimer₃ ⟨_, hlife₃, ?_⟩).1,
        hkeeps.onBlock hb hcurrent hblock₃ (.inr hlist₃)⟩
      have hnon : CoapType.non ≠ .con := by decide
      exact ⟨rfl, fun h => absurd h hnon, fun _ => ⟨Nat.zero_le 1, rfl⟩⟩

/-- **A datagram that is no request** closes a transaction, or nothing. -/
theorem TransactionInv.response {src : E}
    {message : CoapMessage Slice} {handled : Handled E C}
    (hcode : ¬ (1 ≤ message.code.toNat ∧ message.code.toNat ≤ 4))
    (hmatches : Matches cfg s (.received src message handled)) :
    TransactionInv cfg [] (coapReceive cfg s src message handled) ∧
      (Keeps s (coapReceive cfg s src message handled) ∨
        ∃ b, coapGetTransactionByMid s message.mid = some b ∧ b ∈ s.list ∧
          KeepsBut b s (coapReceive cfg s src message handled)) := by
  rw [coapReceive, if_neg hcode]
  cases hget : coapGetTransactionByMid s message.mid with
  | none =>
    obtain ⟨hinv, hkeeps⟩ := h.openAll handled.opened
    exact ⟨hinv, .inl hkeeps⟩
  | some b =>
    have hb : b ∈ s.list := mem_of_find?_eq_some hget
    obtain ⟨hinv₁, hkeeps₁⟩ := h.close hb (hmatches hcode b hget).2
    obtain ⟨hinv₂, hkeeps₂⟩ := hinv₁.openAll handled.opened
    exact ⟨hinv₂, .inr ⟨b, rfl, hb, hkeeps₁.trans hkeeps₂⟩⟩

end

/-! ## Every step, and every run -/

theorem TransactionInv.lt_next (h : TransactionInv cfg [] s)
    (hlife : (ledger s.trace).lives i = some life) : i < (ledger s.trace).next := by
  by_contra hge
  rw [h.fresh i (Nat.le_of_not_lt hge)] at hlife
  exact absurd hlife (some_ne_none life).symm

theorem TransactionInv.livesOk (h : TransactionInv cfg [] s) : LivesOk cfg s := by
  intro i life hlife
  by_cases hopen : IsOpen s i
  · obtain ⟨b, hb, hcurrent⟩ := hopen
    obtain ⟨life', hlife', hlifeOpen, htimer⟩ := h.opened b hb not_mem_nil
    rw [lifeOf, hcurrent, hlife] at hlife'
    rw [← Option.some.inj hlife'] at hlifeOpen
    exact .inl ⟨b, hb, hcurrent, hlifeOpen, htimer⟩
  · obtain ⟨life', hlife', hover⟩ := h.ended i (h.lt_next hlife) hopen
    rw [hlife] at hlife'
    rw [← Option.some.inj hlife'] at hover
    exact .inr ⟨hopen, hover⟩

/-- What is over stays so where it is spared. -/
theorem Spares.ended (h : Spares i s s') (hlife : (ledger s.trace).lives i = some life)
    (hclosed : ¬ IsOpen s i) : (ledger s'.trace).lives i = some life ∧ ¬ IsOpen s' i :=
  ⟨h.1.trans hlife, fun hopen => hclosed (h.2 hopen)⟩

theorem KeepsBut.ended (h : KeepsBut b s s') (hb : b ∈ s.list) (hi : i < (ledger s.trace).next)
    (hlife : (ledger s.trace).lives i = some life) (hclosed : ¬ IsOpen s i) :
    (ledger s'.trace).lives i = some life ∧ ¬ IsOpen s' i :=
  (h.spares i hi fun heq => hclosed ⟨b, hb, heq.symm⟩).ended hlife hclosed

/-- **Every event** whose conditions are met does what it should. -/
theorem TransactionInv.step {e : TransactionEvent E C} (h : TransactionInv cfg [] s)
    (hmatches : Matches cfg s e) :
    TransactionInv cfg [] (s.step cfg e) ∧ TransactionStepOk s (s.step cfg e) e := by
  cases e with
  | opened o =>
    obtain ⟨hinv, hkeeps⟩ := h.openTransaction o
    refine ⟨hinv, ?_, hinv.timers, ?_, ?_⟩
    · exact fun i life hlife => (hkeeps.spares i (h.lt_next hlife)).ended hlife
    · rintro _ _ _ ⟨⟩
    · rintro _ _ ⟨⟩
  | received src message handled =>
    by_cases hcode : 1 ≤ message.code.toNat ∧ message.code.toNat ≤ 4
    · obtain ⟨hinv, hkeeps⟩ := @TransactionInv.request E C cfg s h src message handled hcode
      refine ⟨hinv, ?_, hinv.timers, ?_, ?_⟩
      · exact fun i life hlife => (hkeeps.spares i (h.lt_next hlife)).ended hlife
      · rintro _ _ _ ⟨⟩ i life hlife hchanged
        exact absurd ((hkeeps.spares i (h.lt_next hlife)).1.trans hlife) hchanged
      · rintro _ _ ⟨⟩
    · obtain ⟨hinv, hkeeps | ⟨b, hget, hb, hkeeps⟩⟩ := h.response hcode hmatches
      · refine ⟨hinv, ?_, hinv.timers, ?_, ?_⟩
        · exact fun i life hlife => (hkeeps.spares i (h.lt_next hlife)).ended hlife
        · rintro _ _ _ ⟨⟩ i life hlife hchanged
          exact absurd ((hkeeps.spares i (h.lt_next hlife)).1.trans hlife) hchanged
        · rintro _ _ ⟨⟩
      · refine ⟨hinv, ?_, hinv.timers, ?_, ?_⟩
        · exact fun i life hlife => hkeeps.ended hb (h.lt_next hlife) hlife
        · rintro _ _ _ ⟨⟩ i life hlife hchanged
          refine ⟨hcode, ?_⟩
          by_cases heq : i = (ledger s.trace).current b
          · obtain ⟨life', hlife', hopen, -⟩ := h.opened b hb not_mem_nil
            rw [lifeOf, ← heq, hlife] at hlife'
            have hmid := List.find?_some hget
            rw [← Option.some.inj hlife'] at hopen
            refine ⟨hopen.endpoint.trans (hmatches hcode b hget).1, hopen.mid.trans ?_⟩
            simpa using hmid
          · exact absurd ((hkeeps.spares i (h.lt_next hlife) heq).1.trans hlife) hchanged
        · rintro _ _ ⟨⟩
  | expired b opened =>
    rw [Transactions.step]
    by_cases htimer : s.timers b = true
    · rw [if_pos htimer]
      obtain ⟨hinv₁, hkeeps₁, life, life', hlife, hlife', hdone⟩ :=
        h.retransmit htimer (hmatches htimer)
      obtain ⟨hinv₂, hkeeps₂⟩ := hinv₁.openAll opened
      have hb := h.timers b htimer
      have hkeeps := hkeeps₁.trans hkeeps₂
      refine ⟨hinv₂, ?_, hinv₂.timers, ?_, ?_⟩
      · exact fun i life hlife => hkeeps.ended hb (h.lt_next hlife) hlife
      · rintro _ _ _ ⟨⟩
      · rintro _ _ ⟨⟩ -
        refine ⟨life, life', hlife, ?_, hdone⟩
        exact (hkeeps₂.spares _ (lt_of_lt_of_le (h.current b hb) hkeeps₁.next)).1.trans hlife'
    · rw [if_neg htimer]
      refine ⟨h, fun i life hlife hclosed => ⟨hlife, hclosed⟩, h.timers, ?_, ?_⟩
      · rintro _ _ _ ⟨⟩
      · rintro _ _ ⟨⟩ hset
        exact absurd hset htimer

end Events

/-- No transaction, and what was in the blocks before. -/
def Transactions.init (cells : ℕ → CoapTransaction E C) : Transactions E C :=
  ⟨cells, [], fun _ => false, []⟩

theorem transactionInv_init (cfg : TransactionConfig) (cells : ℕ → CoapTransaction E C) :
    TransactionInv cfg [] (.init cells) where
  nodup := nodup_nil
  lt _ hb := absurd hb not_mem_nil
  inList _ hb := absurd hb not_mem_nil
  current _ hb := absurd hb not_mem_nil
  inj _ hb := absurd hb not_mem_nil
  fresh _ _ := rfl
  timers _ hb := absurd hb Bool.false_ne_true
  opened _ hb := absurd hb not_mem_nil
  ended _ hi := absurd hi (Nat.not_lt_zero _)

/-- The transactions after a run. -/
def Transactions.after (cfg : TransactionConfig) (s : Transactions E C)
    (events : List (TransactionEvent E C)) : Transactions E C :=
  events.foldl (Transactions.step cfg) s

/-- Every event of a run closes the transactions it should. -/
def MatchesAlong (cfg : TransactionConfig) (s : Transactions E C)
    (events : List (TransactionEvent E C)) : Prop :=
  Along (fun s e => some (Transactions.step cfg s e)) (Matches cfg) s events

theorem TransactionInv.after {cfg : TransactionConfig} {s : Transactions E C}
    {events : List (TransactionEvent E C)} (h : TransactionInv cfg [] s)
    (hmatches : MatchesAlong cfg s events) : TransactionInv cfg [] (s.after cfg events) :=
  run_induction (TransactionInv cfg [])
    (fun _ _ _ hmatches h hstep => by
      rw [← Option.some.inj hstep]
      exact (h.step hmatches).1) h hmatches (run_some (Transactions.step cfg) s events)

/-- **The matching of transactions.** In every run whose datagrams and timeouts close the
transactions they should, each transaction is open with its timer set or over, what is over stays as
it is, and a datagram does something only to a transaction with its message id that was sent to its
source. -/
theorem coap_transaction_matching (cfg : TransactionConfig) (cells : ℕ → CoapTransaction E C)
    (events : List (TransactionEvent E C)) (e : TransactionEvent E C)
    (h : MatchesAlong cfg (.init cells) (events ++ [e])) :
    LivesOk cfg ((Transactions.init cells).after cfg events) ∧
      TransactionStepOk ((Transactions.init cells).after cfg events)
        (((Transactions.init cells).after cfg events).step cfg e) e ∧
      LivesOk cfg (((Transactions.init cells).after cfg events).step cfg e) := by
  rw [MatchesAlong, along_append (run_some (Transactions.step cfg) _ events)] at h
  have hinv := (transactionInv_init cfg cells).after h.1
  obtain ⟨hinv', hstep⟩ := hinv.step h.2.1
  exact ⟨hinv.livesOk, hstep, hinv'.livesOk⟩

/-- The numbers of the default configuration. -/
def transactionConfig : TransactionConfig where
  maxOpenTransactions := 4
  maxRetransmit := 4
  responseTimeoutTicks := 3000
  backoffMask := 1501
  backoffMask_pos := by decide
  counter_fits := by decide
  interval_fits := by decide

/-- A confirmable request with the message id 5 to the endpoint 1. -/
def requestToOne : TransactionEvent ℕ ℕ := .opened ⟨5, 1, some 7, .con, 0⟩

/-- The blocks are zero in the beginning. -/
def zeroCells (_ : ℕ) : CoapTransaction ℕ ℕ := ⟨0, 0, 0, 0, none, .con⟩

/-- An empty acknowledgement with the message id 5. -/
def ackFrom (src : ℕ) : TransactionEvent ℕ ℕ :=
  .received src (parseHeader 0x60 0 0 5) ⟨[], false⟩

theorem coap_transaction_matching_acknowledged :
    LivesOk transactionConfig ((Transactions.init zeroCells).after transactionConfig [requestToOne]) ∧
      TransactionStepOk ((Transactions.init zeroCells).after transactionConfig [requestToOne])
        (((Transactions.init zeroCells).after transactionConfig [requestToOne]).step
          transactionConfig (ackFrom 1)) (ackFrom 1) ∧
      LivesOk transactionConfig
        (((Transactions.init zeroCells).after transactionConfig [requestToOne]).step
          transactionConfig (ackFrom 1)) := by
  refine coap_transaction_matching transactionConfig zeroCells [requestToOne] (ackFrom 1)
    ⟨trivial, fun _ b hget => ?_, trivial⟩
  cases hget
  exact ⟨rfl, rfl⟩

/-- **Another endpoint closes a transaction** with its message id. -/
theorem other_endpoint_closes :
    ¬ TransactionStepOk ((Transactions.init zeroCells).after transactionConfig [requestToOne])
      (((Transactions.init zeroCells).after transactionConfig [requestToOne]).step
        transactionConfig (ackFrom 2)) (ackFrom 2) := by
  intro h
  have hlife : (ledger ((Transactions.init zeroCells).after transactionConfig
      [requestToOne]).trace).lives 0 = some ⟨1, 5, .con, some 7, 1, [3000], 0, []⟩ := rfl
  have hclosed : (ledger (((Transactions.init zeroCells).after transactionConfig
      [requestToOne]).step transactionConfig (ackFrom 2)).trace).lives 0 =
        some ⟨1, 5, .con, some 7, 1, [3000], 1, [(7, true)]⟩ := rfl
  have hreceived := h.received 2 _ _ rfl 0 _ hlife fun heq => by
    rw [hclosed] at heq
    exact absurd (congrArg (Option.map Life.freed) heq) (by decide)
  exact absurd hreceived.2.1 (by decide)

end Asap.Coap
