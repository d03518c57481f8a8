import Asap.Coap.Transactions
import Asap.Lib.Run

/-!
# The lives of CoAP transactions

A block holds one transaction after the other, and the trace says what each of them went through:
the `ledger` of a trace has a `Life` for each. What is open in the list is the last life of its
block, and every other life is over. That a callback is called for the right one needs a
condition: the first entry with the message id of a datagram has to be the one that was sent to
its source, and the callback in the block has to be its own.

## Main definitions

* `Life`, `Ledger`, `ledger` — what a transaction went through, as the trace says.
* `TransactionInv` — the list agrees with the ledger.
* `Matches` — the events that close the transactions they should.
-/

namespace Asap.Coap

open Lib List

variable {E C : Type}

/-! ## The ledger -/

/-- What a transaction went through. -/
structure Life (E C : Type) where
  endpoint : E
  mid : BitVec 16
  type : CoapType
  callback : Option C
  sends : ℕ
  intervals : List (BitVec 32)
  freed : ℕ
  calls : List (C × Bool)

/-- The lives so far, in the order of their creation, and the last one of each block. -/
structure Ledger (E C : Type) where
  lives : ℕ → Option (Life E C)
  current : ℕ → ℕ
  next : ℕ

namespace Ledger

/-- The current life of a block is changed. -/
def change (l : Ledger E C) (b : ℕ) (f : Life E C → Life E C) : Ledger E C :=
  { l with lives := Function.update l.lives (l.current b) ((l.lives (l.current b)).map f) }

/-- What is done is entered. -/
def enter (l : Ledger E C) : Action E C → Ledger E C
  | .create b endpoint mid =>
    { lives := Function.update l.lives l.next (some ⟨endpoint, mid, .non, none, 0, [], 0, []⟩)
      current := Function.update l.current b l.next
      next := l.next + 1 }
  | .callback b c => l.change b fun life => { life with callback := some c }
  | .message b type => l.change b fun life => { life with type }
  | .send b interval => l.change b fun life =>
      { life with sends := life.sends + 1, intervals := life.intervals ++ interval.toList }
  | .free b => l.change b fun life => { life with freed := life.freed + 1 }
  | .call b c response => l.change b fun life =>
      { life with calls := life.calls ++ [(c, response)] }

end Ledger

/-- The ledger of a trace. -/
def ledger (trace : List (Action E C)) : Ledger E C :=
  trace.foldl Ledger.enter ⟨fun _ => none, fun _ => 0, 0⟩

@[simp] theorem ledger_append (trace : List (Action E C)) (a : Action E C) :
    ledger (trace ++ [a]) = (ledger trace).enter a := by
  simp [ledger]

/-- The last life of a block. -/
def lifeOf (s : Transactions E C) (b : ℕ) : Option (Life E C) :=
  (ledger s.trace).lives ((ledger s.trace).current b)

/-- A life is the last one of a block in the list. -/
def IsOpen (s : Transactions E C) (i : ℕ) : Prop := ∃ b ∈ s.list, (ledger s.trace).current b = i

/-- The intervals between the times that a message is sent double from one to the next. -/
def Doubles (cfg : TransactionConfig) (first : ℕ) (intervals : List (BitVec 32)) (n : ℕ) : Prop :=
  cfg.responseTimeoutTicks ≤ first ∧ first < cfg.responseTimeoutTicks + cfg.backoffMask ∧
    intervals.map BitVec.toNat = (List.range n).map fun k => first * 2 ^ k

/-- **A life that is not over:** a confirmable message that has been sent once more than its timer
has expired, and no callback yet. -/
structure Open (cfg : TransactionConfig) (t : CoapTransaction E C) (life : Life E C) : Prop where
  endpoint : life.endpoint = t.endpoint
  mid : life.mid = t.mid
  type : life.type = .con
  con : t.type = .con
  counter : t.retransCounter.toNat ≤ cfg.maxRetransmit
  sends : life.sends = t.retransCounter.toNat + 1
  intervals : ∃ first, Doubles cfg first life.intervals life.sends ∧
    t.retransInterval.toNat = first * 2 ^ t.retransCounter.toNat
  freed : life.freed = 0
  calls : life.calls = []

/-- **A life that is over:** its block was freed once. A confirmable message was sent up to
`1 + COAP_MAX_RETRANSMIT` times, and its callback, if there is one, was called once, with a
response or after the last timeout. -/
structure Over (cfg : TransactionConfig) (life : Life E C) : Prop where
  freed : life.freed = 1
  con : life.type = .con → life.sends ≤ 1 + cfg.maxRetransmit ∧
    (∃ first, Doubles cfg first life.intervals life.sends) ∧
    ∃ response, life.calls = life.callback.toList.map (·, response) ∧
      (response = false → life.sends = 1 + cfg.maxRetransmit)
  other : life.type ≠ .con → life.sends ≤ 1 ∧ life.calls = []

/-! ## The conditions and what should happen -/

/-- **The events that close the transactions they should:** the first transaction with the message
id of a datagram was sent to its source, and the callback of what is closed, by a datagram or by
its last timeout, is the one that it was given. -/
def Matches (cfg : TransactionConfig) (s : Transactions E C) : TransactionEvent E C → Prop
  | .opened _ => True
  | .received src message _ =>
    ¬ (1 ≤ message.code.toNat ∧ message.code.toNat ≤ 4) →
      ∀ b, coapGetTransactionByMid s message.mid = some b →
        (s.cells b).endpoint = src ∧ (lifeOf s b).map Life.callback = some (s.cells b).callback
  | .expired b _ =>
    s.timers b = true → (s.cells b).retransCounter.toNat = cfg.maxRetransmit →
      (lifeOf s b).map Life.callback = some (s.cells b).callback

/-- **The transactions in a state:** each is open with its timer set, or over. -/
def LivesOk (cfg : TransactionConfig) (s : Transactions E C) : Prop :=
  ∀ i life, (ledger s.trace).lives i = some life →
    (∃ b ∈ s.list, (ledger s.trace).current b = i ∧ Open cfg (s.cells b) life ∧ s.timers b = true) ∨
      (¬ IsOpen s i ∧ Over cfg life)

/-- **What should happen:** nothing is done to a transaction that is over, and only open ones have
a timer; a datagram does something only to a transaction that was sent to its source with its
message id; and a timeout sends the message again or is the last. -/
structure TransactionStepOk (s s' : Transactions E C) (e : TransactionEvent E C) : Prop where
  ended : ∀ i life, (ledger s.trace).lives i = some life → ¬ IsOpen s i →
    (ledger s'.trace).lives i = some life ∧ ¬ IsOpen s' i
  timers : ∀ b, s'.timers b = true → b ∈ s'.list
  received : ∀ src message handled, e = .received src message handled →
    ∀ i life, (ledger s.trace).lives i = some life → (ledger s'.trace).lives i ≠ some life →
      ¬ (1 ≤ message.code.toNat ∧ message.code.toNat ≤ 4) ∧ life.endpoint = src ∧
        life.mid = message.mid
  expired : ∀ b opened, e = .expired b opened → s.timers b = true →
    ∃ life life', lifeOf s b = some life ∧
      (ledger s'.trace).lives ((ledger s.trace).current b) = some life' ∧
      (life'.sends = life.sends + 1 ∨ life'.freed = 1)

/-! ## What one block does -/

/-- Only one block is touched, and only its life. -/
structure OnBlock (b : ℕ) (s s' : Transactions E C) : Prop where
  cells : ∀ b', b' ≠ b → s'.cells b' = s.cells b'
  timers : ∀ b', b' ≠ b → s'.timers b' = s.timers b'
  current : (ledger s'.trace).current = (ledger s.trace).current
  next : (ledger s'.trace).next = (ledger s.trace).next
  lives : ∀ i, i ≠ (ledger s.trace).current b →
    (ledger s'.trace).lives i = (ledger s.trace).lives i

section Block

variable {cfg : TransactionConfig} {s s' s'' : Transactions E C} {b rand : ℕ} {life : Life E C}
  {held : List ℕ}

theorem OnBlock.refl (b : ℕ) (s : Transactions E C) : OnBlock b s s :=
  ⟨fun _ _ => rfl, fun _ _ => rfl, rfl, rfl, fun _ _ => rfl⟩

theorem OnBlock.trans (h : OnBlock b s s') (h' : OnBlock b s' s'') : OnBlock b s s'' where
  cells b' hb' := (h'.cells b' hb').trans (h.cells b' hb')
  timers b' hb' := (h'.timers b' hb').trans (h.timers b' hb')
  current := h'.current.trans h.current
  next := h'.next.trans h.next
  lives i hi := (h'.lives i (by rwa [h.current])).trans (h.lives i hi)

theorem onBlock_modify (b : ℕ) (s : Transactions E C)
    (f : CoapTransaction E C → CoapTransaction E C) : OnBlock b s (s.modify b f) where
  cells _ hb' := Function.update_of_ne hb' _ _
  timers _ _ := rfl
  current := rfl
  next := rfl
  lives _ _ := rfl

theorem onBlock_setTimer (b : ℕ) (s : Transactions E C) (on : Bool) :
    OnBlock b s (s.setTimer b on) where
  cells _ _ := rfl
  timers _ hb' := Function.update_of_ne hb' _ _
  current := rfl
  next := rfl
  lives _ _ := rfl

/-- An entry that changes the current life of a block. -/
theorem onBlock_emit {a : Action E C} {f : Life E C → Life E C}
    (ha : ∀ l : Ledger E C, l.enter a = l.change b f) (s : Transactions E C) :
    OnBlock b s (s.emit a) ∧ lifeOf (s.emit a) b = (lifeOf s b).map f := by
  simp only [Transactions.emit, lifeOf, ledger_append, ha, Ledger.change]
  refine ⟨⟨fun _ _ => rfl, fun _ _ => rfl, ?_, ?_, fun i hi => ?_⟩, Function.update_self _ _ _⟩
  · simp [ha, Ledger.change]
  · simp [ha, Ledger.change]
  · simp [ha, Ledger.change, hi]

/-- A block is freed. -/
theorem coapClearTransaction_spec (s : Transactions E C) (b : ℕ) :
    OnBlock b s (coapClearTransaction s b) ∧
      (coapClearTransaction s b).list = s.list.erase b ∧
      (coapClearTransaction s b).timers b = false ∧
      lifeOf (coapClearTransaction s b) b =
        (lifeOf s b).map fun life => { life with freed := life.freed + 1 } := by
  have hemit := onBlock_emit (a := .free b) (fun _ => rfl)
    { s.setTimer b false with list := s.list.erase b }
  refine ⟨⟨fun _ _ => rfl, fun b' hb' => Function.update_of_ne hb' _ _, hemit.1.current,
    hemit.1.next, hemit.1.lives⟩, rfl, Function.update_self _ _ _, hemit.2⟩

/-- A callback is called, if there is one. -/
theorem callBack_spec (s : Transactions E C) (b : ℕ) (callback : Option C) (response : Bool) :
    OnBlock b s (callBack s b callback response) ∧
      (callBack s b callback response).list = s.list ∧
      (callBack s b callback response).cells = s.cells ∧
      (callBack s b callback response).timers = s.timers ∧
      lifeOf (callBack s b callback response) b = (lifeOf s b).map fun life =>
        { life with calls := life.calls ++ callback.toList.map (·, response) } := by
  cases callback with
  | none => simp [callBack, OnBlock.refl]
  | some c =>
    have hemit := onBlock_emit (a := .call b c response) (fun _ => rfl) s
    exact ⟨hemit.1, rfl, rfl, rfl, hemit.2⟩

/-- **Sending:** a confirmable message sets the timer, until the last timeout frees the block and
calls back; any other message frees the block at once. -/
theorem coapSendTransaction_con (hcon : (s.cells b).type = .con)
    (hcounter : (s.cells b).retransCounter.toNat ≤ cfg.maxRetransmit) :
    ∃ interval, (interval = if (s.cells b).retransCounter = 0 then
          BitVec.ofNat 32 (cfg.responseTimeoutTicks + rand % cfg.backoffMask)
        else (s.cells b).retransInterval <<< 1) ∧
      OnBlock b s (coapSendTransaction cfg s b rand) ∧
      (coapSendTransaction cfg s b rand).list = s.list ∧
      (coapSendTransaction cfg s b rand).timers b = true ∧
      (coapSendTransaction cfg s b rand).cells b =
        { s.cells b with retransInterval := interval } ∧
      lifeOf (coapSendTransaction cfg s b rand) b = (lifeOf s b).map fun life =>
        { life with sends := life.sends + 1, intervals := life.intervals ++ [interval] } := by
  refine ⟨_, rfl, ?_⟩
  simp only [coapSendTransaction, if_pos hcon, if_pos hcounter]
  obtain ⟨interval, hinterval⟩ : ∃ interval, (if (s.cells b).retransCounter = 0 then
      BitVec.ofNat 32 (cfg.responseTimeoutTicks + rand % cfg.backoffMask)
    else (s.cells b).retransInterval <<< 1) = interval := ⟨_, rfl⟩
  rw [hinterval]
  have hmodify := onBlock_modify b s fun t => { t with retransInterval := interval }
  have htimer := onBlock_setTimer b (s.modify b fun t => { t with retransInterval := interval }) true
  have hemit := onBlock_emit (a := .send b (some interval)) (fun _ => rfl)
    ((s.modify b fun t => { t with retransInterval := interval }).setTimer b true)
  exact ⟨(hmodify.trans htimer).trans hemit.1, rfl, Function.update_self _ _ _,
    Function.update_self _ _ _, hemit.2⟩

theorem coapSendTransaction_last (hcon : (s.cells b).type = .con)
    (hcounter : ¬ (s.cells b).retransCounter.toNat ≤ cfg.maxRetransmit) :
    OnBlock b s (coapSendTransaction cfg s b rand) ∧
      (coapSendTransaction cfg s b rand).list = s.list.erase b ∧
      (coapSendTransaction cfg s b rand).timers b = false ∧
      lifeOf (coapSendTransaction cfg s b rand) b = (lifeOf s b).map fun life =>
        { life with
          freed := life.freed + 1
          calls := life.calls ++ (s.cells b).callback.toList.map (·, false) } := by
  simp only [coapSendTransaction, if_pos hcon, if_neg hcounter]
  obtain ⟨hblock, hlist, htimer, hlife⟩ := coapClearTransaction_spec s b
  obtain ⟨hblock', hlist', -, htimers', hlife'⟩ :=
    callBack_spec (coapClearTransaction s b) b (s.cells b).callback false
  refine ⟨hblock.trans hblock', hlist'.trans hlist, ?_, ?_⟩
  · rw [htimers', htimer]
  · rw [hlife', hlife, Option.map_map]
    rfl

theorem coapSendTransaction_other (hcon : (s.cells b).type ≠ .con) :
    OnBlock b s (coapSendTransaction cfg s b rand) ∧
      (coapSendTransaction cfg s b rand).list = s.list.erase b ∧
      (coapSendTransaction cfg s b rand).timers b = false ∧
      lifeOf (coapSendTransaction cfg s b rand) b = (lifeOf s b).map fun life =>
        { life with sends := life.sends + 1, freed := life.freed + 1 } := by
  simp only [coapSendTransaction, if_neg hcon]
  have hemit := onBlock_emit (a := .send b none) (fun _ => rfl) s
  obtain ⟨hblock, hlist, htimer, hlife⟩ := coapClearTransaction_spec (s.emit (.send b none)) b
  refine ⟨hemit.1.trans hblock, hlist, htimer, ?_⟩
  rw [hlife, hemit.2, Option.map_map]
  congr 1
  funext life
  simp

/-- The message and the callback of a block. -/
theorem setMessage_spec (s : Transactions E C) (b : ℕ) (type : CoapType) :
    OnBlock b s (setMessage s b type) ∧ (setMessage s b type).list = s.list ∧
      (setMessage s b type).timers = s.timers ∧
      (setMessage s b type).cells b = { s.cells b with type } ∧
      lifeOf (setMessage s b type) b = (lifeOf s b).map fun life => { life with type } := by
  have hemit := onBlock_emit (a := .message b type) (fun _ => rfl) (s.modify b fun t => { t with type })
  exact ⟨(onBlock_modify b s _).trans hemit.1, rfl, rfl, Function.update_self _ _ _, hemit.2⟩

theorem setCallback_spec (s : Transactions E C) (b : ℕ) (callback : Option C) :
    OnBlock b s (setCallback s b callback) ∧ (setCallback s b callback).list = s.list ∧
      (setCallback s b callback).timers = s.timers ∧
      (setCallback s b callback).cells b =
        { s.cells b with callback := callback.or (s.cells b).callback } ∧
      lifeOf (setCallback s b callback) b = (lifeOf s b).map fun life =>
        { life with callback := callback.or life.callback } := by
  cases callback with
  | none => simp [setCallback, OnBlock.refl]
  | some c =>
    have hemit := onBlock_emit (a := .callback b c) (fun _ => rfl)
      (s.modify b fun t => { t with callback := some c })
    refine ⟨(onBlock_modify b s _).trans hemit.1, rfl, rfl, Function.update_self _ _ _, ?_⟩
    exact hemit.2

/-! ## The invariant -/

/-- **The list agrees with the ledger.** The blocks in `held` are in use by functions that have not
finished with them. -/
structure TransactionInv (cfg : TransactionConfig) (held : List ℕ) (s : Transactions E C) : Prop where
  nodup : s.list.Nodup
  lt : ∀ b ∈ s.list, b < cfg.maxOpenTransactions
  inList : ∀ b ∈ held, b ∈ s.list
  current : ∀ b ∈ s.list, (ledger s.trace).current b < (ledger s.trace).next
  inj : ∀ b ∈ s.list, ∀ b' ∈ s.list,
    (ledger s.trace).current b = (ledger s.trace).current b' → b = b'
  fresh : ∀ i, (ledger s.trace).next ≤ i → (ledger s.trace).lives i = none
  timers : ∀ b, s.timers b = true → b ∈ s.list
  opened : ∀ b ∈ s.list, b ∉ held →
    ∃ life, lifeOf s b = some life ∧ Open cfg (s.cells b) life ∧ s.timers b = true
  ended : ∀ i < (ledger s.trace).next, ¬ IsOpen s i →
    ∃ life, (ledger s.trace).lives i = some life ∧ Over cfg life

/-- The functions may have more blocks in hand. -/
theorem TransactionInv.hold (h : TransactionInv cfg held s) (hb : b ∈ s.list) :
    TransactionInv cfg (b :: held) s where
  nodup := h.nodup
  lt := h.lt
  inList := List.forall_mem_cons.mpr ⟨hb, h.inList⟩
  current := h.current
  inj := h.inj
  fresh := h.fresh
  timers := h.timers
  opened b' hb' hnot := h.opened b' hb' fun hmem => hnot (mem_cons_of_mem b hmem)
  ended := h.ended

theorem OnBlock.lifeOf (h : OnBlock b s s') {b' : ℕ}
    (hne : (ledger s.trace).current b' ≠ (ledger s.trace).current b) :
    Coap.lifeOf s' b' = Coap.lifeOf s b' := by
  rw [Coap.lifeOf, h.current, h.lives _ hne, Coap.lifeOf]

/-- A block that stays open. -/
theorem TransactionInv.settle (h : TransactionInv cfg (b :: held) s)
    (hblock : OnBlock b s s') (hlist : s'.list = s.list)
    (hopen : ∃ life, lifeOf s' b = some life ∧ Open cfg (s'.cells b) life ∧ s'.timers b = true) :
    TransactionInv cfg held s' := by
  have hb : b ∈ s.list := h.inList b mem_cons_self
  have hisOpen : ∀ i, IsOpen s' i ↔ IsOpen s i := by
    intro i
    rw [IsOpen, IsOpen, hlist, hblock.current]
  refine ⟨?_, ?_, ?_, ?_, ?_, ?_, ?_, ?_, ?_⟩
  · rw [hlist]
    exact h.nodup
  · rw [hlist]
    exact h.lt
  · rw [hlist]
    exact fun b' hb' => h.inList b' (mem_cons_of_mem b hb')
  · rw [hlist, hblock.current, hblock.next]
    exact h.current
  · rw [hlist, hblock.current]
    exact h.inj
  · intro i hi
    rw [hblock.next] at hi
    rw [hblock.lives i (by have := h.current b hb; omega)]
    exact h.fresh i hi
  · intro b' hb'
    rw [hlist]
    by_cases heq : b' = b
    · rw [heq]
      exact hb
    · rw [hblock.timers b' heq] at hb'
      exact h.timers b' hb'
  · intro b' hb' hheld
    rw [hlist] at hb'
    by_cases heq : b' = b
    · rw [heq]
      exact hopen
    · have hne : (ledger s.trace).current b' ≠ (ledger s.trace).current b :=
        fun hcurrent => heq (h.inj b' hb' b hb hcurrent)
      rw [hblock.lifeOf hne, hblock.cells b' heq, hblock.timers b' heq]
      exact h.opened b' hb' fun hmem => (List.mem_cons.mp hmem).elim heq hheld
  · intro i hi hclosed
    rw [hblock.next] at hi
    rw [hisOpen] at hclosed
    rw [hblock.lives i fun heq => hclosed ⟨b, hb, heq.symm⟩]
    exact h.ended i hi hclosed

/-- A block that is freed. -/
theorem TransactionInv.leave (h : TransactionInv cfg (b :: held) s) (hnot : b ∉ held)
    (hblock : OnBlock b s s') (hlist : s'.list = s.list.erase b) (htimer : s'.timers b = false)
    (hover : ∃ life, lifeOf s' b = some life ∧ Over cfg life) :
    TransactionInv cfg held s' ∧ ¬ IsOpen s' ((ledger s.trace).current b) := by
  have hb : b ∈ s.list := h.inList b mem_cons_self
  have hmem : ∀ b', b' ∈ s'.list ↔ b' ≠ b ∧ b' ∈ s.list := by
    intro b'
    rw [hlist, h.nodup.mem_erase_iff]
  have hleft : ¬ IsOpen s' ((ledger s.trace).current b) := by
    rintro ⟨b', hb', hcurrent⟩
    rw [hblock.current] at hcurrent
    obtain ⟨hne, hb'⟩ := (hmem b').mp hb'
    exact hne (h.inj b' hb' b hb hcurrent)
  refine ⟨⟨?_, ?_, ?_, ?_, ?_, ?_, ?_, ?_, ?_⟩, hleft⟩
  · rw [hlist]
    exact h.nodup.erase b
  · exact fun b' hb' => h.lt b' ((hmem b').mp hb').2
  · intro b' hb'
    rw [hmem]
    exact ⟨fun heq => hnot (heq ▸ hb'), h.inList b' (mem_cons_of_mem b hb')⟩
  · intro b' hb'
    rw [hblock.current, hblock.next]
    exact h.current b' ((hmem b').mp hb').2
  · intro b₁ hb₁ b₂ hb₂
    rw [hblock.current]
    exact h.inj b₁ ((hmem b₁).mp hb₁).2 b₂ ((hmem b₂).mp hb₂).2
  · intro i hi
    rw [hblock.next] at hi
    rw [hblock.lives i (by have := h.current b hb; omega)]
    exact h.fresh i hi
  · intro b' hb'
    by_cases heq : b' = b
    · rw [heq, htimer] at hb'
      exact absurd hb' Bool.false_ne_true
    · rw [hblock.timers b' heq] at hb'
      exact (hmem b').mpr ⟨heq, h.timers b' hb'⟩
  · intro b' hb' hheld
    obtain ⟨heq, hb'⟩ := (hmem b').mp hb'
    have hne : (ledger s.trace).current b' ≠ (ledger s.trace).current b :=
      fun hcurrent => heq (h.inj b' hb' b hb hcurrent)
    rw [hblock.lifeOf hne, hblock.cells b' heq, hblock.timers b' heq]
    exact h.opened b' hb' fun hmem => (List.mem_cons.mp hmem).elim heq hheld
  · intro i hi hclosed
    rw [hblock.next] at hi
    by_cases heq : i = (ledger s.trace).current b
    · obtain ⟨life, hlife, hlifeOver⟩ := hover
      refine ⟨life, ?_, hlifeOver⟩
      rw [heq, ← hlife, lifeOf, hblock.current]
    · rw [hblock.lives i heq]
      refine h.ended i hi ?_
      rintro ⟨b', hb', hcurrent⟩
      apply hclosed
      refine ⟨b', (hmem b').mpr ⟨?_, hb'⟩, by rw [hblock.current, hcurrent]⟩
      rintro rfl
      exact heq hcurrent.symm

end Block

/-! ## Opening transactions -/

/-- A life is spared: nothing is entered for it, and its block is not opened again. -/
def Spares (i : ℕ) (s s' : Transactions E C) : Prop :=
  (ledger s'.trace).lives i = (ledger s.trace).lives i ∧ (IsOpen s' i → IsOpen s i)

/-- What was there before is kept. -/
structure Keeps (s s' : Transactions E C) : Prop where
  next : (ledger s.trace).next ≤ (ledger s'.trace).next
  spares : ∀ i < (ledger s.trace).next, Spares i s s'
  block : ∀ b ∈ s.list, b ∈ s'.list ∧ s'.cells b = s.cells b ∧ s'.timers b = s.timers b ∧
    (ledger s'.trace).current b = (ledger s.trace).current b

section Opening

variable {cfg : TransactionConfig} {s s' s'' : Transactions E C} {b i : ℕ} {held : List ℕ}
  {mid : BitVec 16} {endpoint : E}

theorem Spares.trans (h : Spares i s s') (h' : Spares i s' s'') : Spares i s s'' :=
  ⟨h'.1.trans h.1, fun hopen => h.2 (h'.2 hopen)⟩

theorem OnBlock.spares (h : OnBlock b s s') (hlist : s'.list ⊆ s.list)
    (hi : i ≠ (ledger s.trace).current b) : Spares i s s' := by
  refine ⟨h.lives i hi, ?_⟩
  rintro ⟨b', hb', hcurrent⟩
  exact ⟨b', hlist hb', by rw [← hcurrent, h.current]⟩

theorem Keeps.refl (s : Transactions E C) : Keeps s s :=
  ⟨Nat.le_refl _, fun _ _ => ⟨rfl, id⟩, fun _ hb => ⟨hb, rfl, rfl, rfl⟩⟩

theorem Keeps.trans (h : Keeps s s') (h' : Keeps s' s'') : Keeps s s'' where
  next := le_trans h.next h'.next
  spares i hi := (h.spares i hi).trans (h'.spares i (lt_of_lt_of_le hi h.next))
  block b hb := by
    obtain ⟨hmem, hcells, htimers, hcurrent⟩ := h.block b hb
    obtain ⟨hmem', hcells', htimers', hcurrent'⟩ := h'.block b hmem
    exact ⟨hmem', hcells'.trans hcells, htimers'.trans htimers, hcurrent'.trans hcurrent⟩

/-- What is done to a new block keeps what was there before. -/
theorem Keeps.onBlock (h : Keeps s s') (hb : b ∉ s.list)
    (hcurrent : (ledger s.trace).next ≤ (ledger s'.trace).current b) (hblock : OnBlock b s' s'')
    (hlist : s''.list = s'.list ∨ s''.list = s'.list.erase b) : Keeps s s'' where
  next := by
    rw [hblock.next]
    exact h.next
  spares i hi := by
    refine (h.spares i hi).trans (hblock.spares ?_ (by omega))
    rcases hlist with hlist | hlist
    · rw [hlist]
      exact fun _ hmem => hmem
    · rw [hlist]
      exact erase_subset
  block b' hb' := by
    have hne : b' ≠ b := fun heq => hb (heq ▸ hb')
    obtain ⟨hmem, hcells, htimers, hcur⟩ := h.block b' hb'
    refine ⟨?_, (hblock.cells b' hne).trans hcells, (hblock.timers b' hne).trans htimers, ?_⟩
    · rcases hlist with hlist | hlist
      · rwa [hlist]
      · rw [hlist]
        exact (mem_erase_of_ne hne).mpr hmem
    · rw [hblock.current, hcur]

/-- What a new transaction is in the ledger. -/
def newLife (endpoint : E) (mid : BitVec 16) : Life E C := ⟨endpoint, mid, .non, none, 0, [], 0, []⟩

theorem coapNewTransaction_spec (hnew : coapNewTransaction cfg s mid endpoint = some (b, s')) :
    (b < cfg.maxOpenTransactions ∧ b ∉ s.list) ∧ s'.list = s.list ++ [b] ∧
      s'.cells = Function.update s.cells b { s.cells b with mid, retransCounter := 0, endpoint } ∧
      s'.timers = s.timers ∧
      ledger s'.trace =
        { lives := Function.update (ledger s.trace).lives (ledger s.trace).next
            (some (newLife endpoint mid))
          current := Function.update (ledger s.trace).current b (ledger s.trace).next
          next := (ledger s.trace).next + 1 } := by
  rw [coapNewTransaction, Option.map_eq_some_iff] at hnew
  obtain ⟨b', halloc, heq⟩ := hnew
  obtain ⟨rfl, rfl⟩ := Prod.mk.inj heq
  obtain ⟨hlt, hfree⟩ := membAlloc_eq_some halloc
  exact ⟨⟨hlt, by simpa using hfree⟩, rfl, rfl, rfl, ledger_append _ _⟩

/-- **A new transaction** takes a free block and has a new life. -/
theorem TransactionInv.create (h : TransactionInv cfg held s)
    (hnew : coapNewTransaction cfg s mid endpoint = some (b, s')) :
    TransactionInv cfg (b :: held) s' ∧ Keeps s s' := by
  obtain ⟨⟨hlt, hb⟩, hlist, hcells, htimers, hledger⟩ := coapNewTransaction_spec hnew
  have hne : ∀ b' ∈ s.list, b' ≠ b := fun b' hmem heq => hb (heq ▸ hmem)
  have hkept : ∀ b' ∈ s.list, (ledger s'.trace).current b' = (ledger s.trace).current b' := by
    intro b' hb'
    rw [hledger]
    exact Function.update_of_ne (hne b' hb') _ _
  have hnewest : (ledger s'.trace).current b = (ledger s.trace).next := by
    rw [hledger]
    exact Function.update_self _ _ _
  have hnext : (ledger s'.trace).next = (ledger s.trace).next + 1 := by rw [hledger]
  have hlives : ∀ i, i ≠ (ledger s.trace).next →
      (ledger s'.trace).lives i = (ledger s.trace).lives i := by
    intro i hi
    rw [hledger]
    exact Function.update_of_ne hi _ _
  have hmem : ∀ b', b' ∈ s'.list ↔ b' ∈ s.list ∨ b' = b := by
    intro b'
    rw [hlist, mem_append, mem_singleton]
  have hisOpen : ∀ i < (ledger s.trace).next, IsOpen s' i → IsOpen s i := by
    rintro i hi ⟨b', hb', hcurrent⟩
    rcases (hmem b').mp hb' with hb' | rfl
    · exact ⟨b', hb', by rw [← hcurrent, hkept b' hb']⟩
    · omega
  refine ⟨⟨?_, ?_, ?_, ?_, ?_, ?_, ?_, ?_, ?_⟩, ⟨?_, ?_, ?_⟩⟩
  · rw [hlist, nodup_append]
    refine ⟨h.nodup, nodup_singleton b, fun b' hb' b'' hb'' => ?_⟩
    rw [List.mem_singleton.mp hb'']
    exact hne b' hb'
  · intro b' hb'
    rcases (hmem b').mp hb' with hb' | rfl
    · exact h.lt b' hb'
    · exact hlt
  · intro b' hb'
    rcases List.mem_cons.mp hb' with rfl | hb'
    · exact (hmem b').mpr (.inr rfl)
    · exact (hmem b').mpr (.inl (h.inList b' hb'))
  · intro b' hb'
    rcases (hmem b').mp hb' with hb' | rfl
    · rw [hkept b' hb', hnext]
      exact Nat.lt_succ_of_lt (h.current b' hb')
    · omega
  · intro b₁ hb₁ b₂ hb₂ heq
    rcases (hmem b₁).mp hb₁ with hb₁ | rfl
    · rcases (hmem b₂).mp hb₂ with hb₂ | rfl
      · rw [hkept b₁ hb₁, hkept b₂ hb₂] at heq
        exact h.inj b₁ hb₁ b₂ hb₂ heq
      · rw [hkept b₁ hb₁, hnewest] at heq
        exact absurd heq (Nat.ne_of_lt (h.current b₁ hb₁))
    · rcases (hmem b₂).mp hb₂ with hb₂ | rfl
      · rw [hkept b₂ hb₂, hnewest] at heq
        exact absurd heq.symm (Nat.ne_of_lt (h.current b₂ hb₂))
      · rfl
  · intro i hi
    rw [hlives i (by omega)]
    exact h.fresh i (by omega)
  · intro b' hb'
    rw [htimers] at hb'
    exact (hmem b').mpr (.inl (h.timers b' hb'))
  · intro b' hb' hnot
    rw [mem_cons, not_or] at hnot
    have hb' := ((hmem b').mp hb').resolve_right hnot.1
    obtain ⟨life, hlife, hopen⟩ := h.opened b' hb' hnot.2
    refine ⟨life, ?_, ?_⟩
    · rw [lifeOf, hkept b' hb', hlives _ (Nat.ne_of_lt (h.current b' hb'))]
      exact hlife
    · rw [hcells, htimers, Function.update_of_ne hnot.1]
      exact hopen
  · intro i hi hclosed
    by_cases heq : i = (ledger s.trace).next
    · exact absurd ⟨b, (hmem b).mpr (.inr rfl), hnewest.trans heq.symm⟩ hclosed
    · rw [hlives i heq]
      refine h.ended i (by omega) ?_
      rintro ⟨b', hb', hcurrent⟩
      exact hclosed ⟨b', (hmem b').mpr (.inl hb'), (hkept b' hb').trans hcurrent⟩
  · omega
  · exact fun i hi => ⟨hlives i (Nat.ne_of_lt hi), hisOpen i hi⟩
  · intro b' hb'
    refine ⟨(hmem b').mpr (.inl hb'), ?_, by rw [htimers], hkept b' hb'⟩
    rw [hcells, Function.update_of_ne (hne b' hb')]

theorem lifeOf_new (hnew : coapNewTransaction cfg s mid endpoint = some (b, s')) :
    lifeOf s' b = some (newLife endpoint mid) ∧
      (ledger s.trace).next ≤ (ledger s'.trace).current b := by
  obtain ⟨-, -, -, -, hledger⟩ := coapNewTransaction_spec hnew
  simp [lifeOf, hledger]

/-- The first interval. -/
theorem first_interval (rand : ℕ) :
    (BitVec.ofNat 32 (cfg.responseTimeoutTicks + rand % cfg.backoffMask)).toNat =
      cfg.responseTimeoutTicks + rand % cfg.backoffMask := by
  have hlt := Nat.mod_lt rand cfg.backoffMask_pos
  have hfits := cfg.interval_fits
  have hpos : 1 ≤ 2 ^ cfg.maxRetransmit := Nat.one_le_two_pow
  rw [BitVec.toNat_ofNat]
  apply Nat.mod_eq_of_lt
  nlinarith

/-- **A transaction is opened:** what was there before is kept. -/
theorem TransactionInv.openTransaction (h : TransactionInv cfg held s) (o : Opening E C) :
    TransactionInv cfg held (openTransaction cfg s o) ∧ Keeps s (openTransaction cfg s o) := by
  unfold Coap.openTransaction
  cases hnew : coapNewTransaction cfg s o.mid o.endpoint with
  | none => exact ⟨h, .refl s⟩
  | some bs =>
    obtain ⟨b, s₁⟩ := bs
    obtain ⟨hinv, hkeeps⟩ := h.create hnew
    obtain ⟨⟨-, hb⟩, -, hcells, -, -⟩ := coapNewTransaction_spec hnew
    obtain ⟨hlife, hcurrent⟩ := lifeOf_new hnew
    have hheld : b ∉ held := fun hmem => hb (h.inList b hmem)
    obtain ⟨hblock₂, hlist₂, -, hcells₂, hlife₂⟩ := setCallback_spec s₁ b o.callback
    obtain ⟨hblock₃, hlist₃, -, hcells₃, hlife₃⟩ :=
      setMessage_spec (setCallback s₁ b o.callback) b o.type
    obtain ⟨s₃, hs₃⟩ : ∃ s₃, setMessage (setCallback s₁ b o.callback) b o.type = s₃ := ⟨_, rfl⟩
    rw [hs₃] at hblock₃ hlist₃ hcells₃ hlife₃
    rw [hlife₂, hlife, Option.map_some, Option.map_some] at hlife₃
    rw [hcells₂, hcells, Function.update_self] at hcells₃
    have hblock := hblock₂.trans hblock₃
    have hlist := hlist₃.trans hlist₂
    change TransactionInv cfg held (coapSendTransaction cfg (setMessage (setCallback s₁ b o.callback) b
      o.type) b o.rand) ∧ Keeps s (coapSendTransaction cfg (setMessage (setCallback s₁ b o.callback) b
      o.type) b o.rand)
    rw [hs₃]
    by_cases hcon : o.type = .con
    · obtain ⟨interval, hinterval, hblock₄, hlist₄, htimer₄, hcells₄, hlife₄⟩ :=
        @coapSendTransaction_con E C cfg s₃ b o.rand (by rw [hcells₃]; exact hcon)
          (by rw [hcells₃]; exact Nat.zero_le _)
      rw [hcells₃, if_pos rfl] at hinterval
      rw [hlife₃] at hlife₄
      have hall := hblock.trans hblock₄
      refine ⟨hinv.settle hall (hlist₄.trans hlist) ⟨_, hlife₄, ?_, htimer₄⟩,
        hkeeps.onBlock hb hcurrent hall (.inl (hlist₄.trans hlist))⟩
      rw [hcells₄, hcells₃]
      have hfirst := @first_interval cfg o.rand
      refine ⟨rfl, rfl, hcon, hcon, Nat.zero_le _, rfl, ⟨interval.toNat, ⟨?_, ?_, ?_⟩, ?_⟩, rfl, rfl⟩
      · rw [hinterval, hfirst]
        exact Nat.le_add_right _ _
      · rw [hinterval, hfirst]
        exact Nat.add_lt_add_left (Nat.mod_lt _ cfg.backoffMask_pos) _
      · simp [newLife]
      · simp
    · obtain ⟨hblock₄, hlist₄, htimer₄, hlife₄⟩ :=
        @coapSendTransaction_other E C cfg s₃ b o.rand (by rw [hcells₃]; exact hcon)
      rw [hlife₃] at hlife₄
      rw [hlist] at hlist₄
      have hall := hblock.trans hblock₄
      refine ⟨(hinv.leave hheld hall hlist₄ htimer₄ ⟨_, hlife₄, ?_⟩).1,
        hkeeps.onBlock hb hcurrent hall (.inr hlist₄)⟩
      exact ⟨rfl, fun h => absurd h hcon, fun _ => ⟨Nat.le_refl 1, rfl⟩⟩

theorem TransactionInv.openAll (h : TransactionInv cfg held s) (os : List (Opening E C)) :
    TransactionInv cfg held (os.foldl (Coap.openTransaction cfg) s) ∧
      Keeps s (os.foldl (Coap.openTransaction cfg) s) := by
  induction os generalizing s with
  | nil => exact ⟨h, .refl s⟩
  | cons o os ih =>
    obtain ⟨hinv, hkeeps⟩ := h.openTransaction o
    obtain ⟨hinv', hkeeps'⟩ := ih hinv
    exact ⟨hinv', hkeeps.trans hkeeps'⟩

end Opening

end Asap.Coap
