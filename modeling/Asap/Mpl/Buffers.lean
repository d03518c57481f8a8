import Asap.Lib.Run
import Asap.Mpl.Control

/-!
# The buffered messages

A data message is kept in a buffer, on the list of its seed in the order of the numbers. A message
with a number below the least one of its seed is too old. Where there is no free buffer, the first
message of a seed with most of them is given up. Seeds expire, and go with their domain.

## Main definitions

* `BufferedMsg`, `SeedEntry`, `MplSets` — the buffers and the seeds.
* `bufferAllocate`, `bufferReclaim`, `seedSetFree`.
* `accept` — a data message is taken or dropped.
* `lifetimeTimerExpiration`, `domainSetFree`.
-/

namespace Asap.Mpl

open Lib

/-- `SEQ_VAL_IS_LT` -/
def seqValIsLt (i₁ i₂ : BitVec 8) : Bool :=
  i₁ ≠ i₂ ∧ ((i₁.toNat < i₂.toNat ∧ i₂.toNat - i₁.toNat < 0x100) ∨
    (i₂.toNat < i₁.toNat ∧ i₁.toNat - i₂.toNat > 0x100))

theorem seqValIsLt_iff {i₁ i₂ : BitVec 8} : seqValIsLt i₁ i₂ = true ↔ i₁.toNat < i₂.toNat := by
  rw [seqValIsLt, decide_eq_true_eq]
  have h₁ := i₁.isLt
  have h₂ := i₂.isLt
  constructor
  · intro h
    omega
  · intro hlt
    refine ⟨fun heq => ?_, .inl ⟨hlt, by omega⟩⟩
    rw [heq] at hlt
    exact Nat.lt_irrefl _ hlt

/-- `struct mpl_msg`: the seed, by its place in `seed_set`, and the number. -/
structure BufferedMsg where
  seed : Option ℕ
  seq : BitVec 8

/-- `struct mpl_seed`, with the messages by their places in `buffered_message_set`. -/
structure SeedEntry where
  id : SeedId
  minSeqno : BitVec 8
  lifetime : BitVec 8
  count : BitVec 8
  minSeq : List ℕ
  domain : Option ℕ

/-- `buffered_message_set` and `seed_set`. Behind the last seed comes the memory that follows, as
it reads as a seed. -/
structure MplSets where
  bufferedMessageSet : ℕ → BufferedMsg
  seedSet : ℕ → SeedEntry

/-- `MPL_SEED_SET_SIZE`, `MPL_BUFFERED_MESSAGE_SET_SIZE` and `MPL_SEED_SET_ENTRY_LIFETIME`. -/
structure MplSetsConfig where
  seedSetSize : ℕ
  bufferedMessageSetSize : ℕ
  entryLifetime : BitVec 8

/-- What is read of a data message, with the place of its domain. -/
structure DataMsg where
  id : SeedId
  domain : ℕ
  seq : BitVec 8

namespace MplSets

variable (cfg : MplSetsConfig) (st : MplSets)

/-- A seed is written. -/
def setSeed (i : ℕ) (e : SeedEntry) : MplSets :=
  { st with seedSet := Function.update st.seedSet i e }

/-- A buffer is written. -/
def setMsg (b : ℕ) (m : BufferedMsg) : MplSets :=
  { st with bufferedMessageSet := Function.update st.bufferedMessageSet b m }

@[simp] theorem setSeed_msg (i : ℕ) (e : SeedEntry) :
    (st.setSeed i e).bufferedMessageSet = st.bufferedMessageSet := rfl

@[simp] theorem setMsg_seed (b : ℕ) (m : BufferedMsg) : (st.setMsg b m).seedSet = st.seedSet := rfl

@[simp] theorem setSeed_self (i : ℕ) (e : SeedEntry) : (st.setSeed i e).seedSet i = e := by
  simp [setSeed]

theorem setSeed_of_ne {i j : ℕ} (h : j ≠ i) (e : SeedEntry) :
    (st.setSeed i e).seedSet j = st.seedSet j := by
  simp [setSeed, h]

@[simp] theorem setMsg_self (b : ℕ) (m : BufferedMsg) :
    (st.setMsg b m).bufferedMessageSet b = m := by
  simp [setMsg]

theorem setMsg_of_ne {b c : ℕ} (h : c ≠ b) (m : BufferedMsg) :
    (st.setMsg b m).bufferedMessageSet c = st.bufferedMessageSet c := by
  simp [setMsg, h]

/-- The number of a buffered message. -/
def seqOf (b : ℕ) : BitVec 8 := (st.bufferedMessageSet b).seq

/-- `SEED_SET_IS_USED` -/
def seedUsed (i : ℕ) : Bool := (st.seedSet i).domain.isSome

/-- `MSG_SET_IS_USED` -/
def msgUsed (b : ℕ) : Bool := (st.bufferedMessageSet b).seed.isSome

/-! ## Buffers -/

/-- The search of `buffer_allocate`, from the last buffer down. -/
def freeBuffer : Option ℕ :=
  (List.range cfg.bufferedMessageSetSize).reverse.find? fun b => !st.msgUsed b

/-- `buffer_free` -/
def bufferFree (b : ℕ) : MplSets := st.setMsg b ⟨none, st.seqOf b⟩

/-- A seed has more messages than the largest one so far. -/
def larger (i : ℕ) : Option ℕ → Bool
  | none => true
  | some l => (st.seedSet l).count < (st.seedSet i).count

/-- The loop of `buffer_reclaim`. -/
def largestLoop : List ℕ → Option ℕ → Option ℕ
  | [], l => l
  | i :: rest, l =>
    if st.seedUsed i && st.larger i l then largestLoop rest (some i) else largestLoop rest l

/-- The seed that a message is reclaimed of; the search begins behind the last seed. -/
def largest : Option ℕ := st.largestLoop (List.range (cfg.seedSetSize + 1)).reverse none

/-- `buffer_reclaim`; `none` where the list that is popped is empty, as its head is read. -/
def bufferReclaim : Option (MplSets × Option ℕ) :=
  match st.largest cfg with
  | none => some (st, none)
  | some i =>
    match (st.seedSet i).minSeq with
    | [] => none
    | b :: rest =>
      let seed := { st.seedSet i with
        minSeq := rest
        minSeqno := st.seqOf (rest.headD b)
        count := (st.seedSet i).count - 1 }
      some ((st.setSeed i seed).setMsg b ⟨none, 0⟩, some b)

/-! ## Seeds -/

/-- `seed_set_lookup` -/
def seedSetLookup (id : SeedId) (domain : ℕ) : Option ℕ :=
  (List.range cfg.seedSetSize).reverse.find? fun i =>
    st.seedUsed i ∧ (st.seedSet i).id = id ∧ (st.seedSet i).domain = some domain

/-- The search of `seed_set_allocate`. -/
def freeSeed : Option ℕ := (List.range cfg.seedSetSize).reverse.find? fun i => !st.seedUsed i

/-- `seed_set_free` -/
def seedSetFree (i : ℕ) : MplSets :=
  ((st.seedSet i).minSeq.foldl bufferFree st).setSeed i
    { st.seedSet i with minSeq := [], domain := none }

/-! ## Data messages -/

/-- The first part of `accept`: the seed of a message that is not too old and has not been seen. A
seed that is not known gets an entry. -/
def seedFor (msg : DataMsg) : MplSets × Option ℕ :=
  match st.seedSetLookup cfg msg.id msg.domain with
  | some i =>
    if seqValIsLt msg.seq (st.seedSet i).minSeqno then (st, none)
    else if (st.seedSet i).minSeq.any fun b => st.seqOf b = msg.seq then (st, none)
    else (st, some i)
  | none =>
    match st.freeSeed cfg with
    | none => (st, none)
    | some i => (st.setSeed i ⟨msg.id, 0, 0, 0, [], some msg.domain⟩, some i)

/-- The loop that places a message on the list of its seed: behind a message, never before the
first. -/
def insertMsg (b : ℕ) : List ℕ → List ℕ
  | [] => []
  | [x] => [x, b]
  | x :: y :: l =>
    if seqValIsGt (st.seqOf b) (st.seqOf x) ∧ seqValIsLt (st.seqOf b) (st.seqOf y) then
      x :: b :: y :: l
    else x :: insertMsg b (y :: l)

/-- A message is written to its buffer, and placed on the list of its seed. -/
def place (i b : ℕ) (seq : BitVec 8) : MplSets :=
  let st := st.setMsg b ⟨some i, seq⟩
  let seed := st.seedSet i
  let seed :=
    if seed.minSeq = [] then { seed with minSeq := [b], minSeqno := seq }
    else { seed with minSeq := st.insertMsg b seed.minSeq }
  st.setSeed i { seed with count := seed.count + 1, lifetime := cfg.entryLifetime }

/-- A buffer for the message of a seed, one that is reclaimed where there is none. -/
def store (i : ℕ) (seq : BitVec 8) : Option (MplSets × Bool) :=
  match st.freeBuffer cfg with
  | some b => some (st.place cfg i b seq, true)
  | none =>
    match st.bufferReclaim cfg with
    | none => none
    | some (st, none) => some (st, false)
    | some (st, some b) => some (st.place cfg i b seq, true)

/-- `accept`, from the lookup of the seed on, and whether the message is delivered. -/
def accept (msg : DataMsg) : Option (MplSets × Bool) :=
  match st.seedFor cfg msg with
  | (st, none) => some (st, false)
  | (st, some i) => st.store cfg i msg.seq

/-! ## Seeds that go -/

/-- A seed whose lifetime has passed goes, unless the timer of one of its messages runs. -/
def freeExpired (running : ℕ → Bool) (i : ℕ) : MplSets :=
  if st.seedUsed i ∧ (st.seedSet i).lifetime = 0 ∧ (st.seedSet i).minSeq.all fun b => !running b
  then st.seedSetFree i else st

/-- The lifetime of a seed is counted down. -/
def countDown (i : ℕ) : MplSets :=
  if (st.seedSet i).lifetime ≠ 0 then
    st.setSeed i { st.seedSet i with lifetime := (st.seedSet i).lifetime - 1 }
  else st

/-- `lifetime_timer_expiration` for one seed. -/
def expireSeed (running : ℕ → Bool) (st : MplSets) (i : ℕ) : MplSets :=
  (st.freeExpired running i).countDown i

/-- `lifetime_timer_expiration`, but for the domains. -/
def lifetimeTimerExpiration (running : ℕ → Bool) : MplSets :=
  (List.range cfg.seedSetSize).reverse.foldl (expireSeed running) st

/-- The loop of `domain_set_free`; it begins behind the last seed. -/
def domainSetFree (domain : ℕ) : MplSets :=
  (List.range (cfg.seedSetSize + 1)).reverse.foldl
    (fun st i => if (st.seedSet i).domain = some domain then st.seedSetFree i else st) st

end MplSets

/-! ## Runs -/

/-- The sets, and for each entry of a seed the numbers that have been delivered since it is there. -/
structure MplWorld where
  sets : MplSets
  delivered : ℕ → List (BitVec 8)

/-- What happens: a data message, the lifetime timer with the message timers that run, a domain that
goes, and a write to the memory behind the seeds. -/
inductive MplEvent
  | receive (msg : DataMsg)
  | lifetime (running : ℕ → Bool)
  | freeDomain (domain : ℕ)
  | behind (e : SeedEntry)

namespace MplWorld

variable (cfg : MplSetsConfig) (w : MplWorld)

/-- No message and no seed. -/
def init : MplWorld where
  sets := ⟨fun _ => ⟨none, 0⟩, fun _ => ⟨fun _ => 0, 0, 0, 0, [], none⟩⟩
  delivered _ := []

/-- A message of a seed has been delivered; the numbers are those of its entry. -/
def deliver (msg : DataMsg) : ℕ → List (BitVec 8) :=
  match w.sets.seedSetLookup cfg msg.id msg.domain, w.sets.freeSeed cfg with
  | some i, _ => Function.update w.delivered i (msg.seq :: w.delivered i)
  | none, some i => Function.update w.delivered i [msg.seq]
  | none, none => w.delivered

/-- One event. -/
def step : MplEvent → Option MplWorld
  | .receive msg =>
    match w.sets.accept cfg msg with
    | none => none
    | some (sets, true) => some ⟨sets, w.deliver cfg msg⟩
    | some (sets, false) => some ⟨sets, w.delivered⟩
  | .lifetime running => some ⟨w.sets.lifetimeTimerExpiration cfg running, w.delivered⟩
  | .freeDomain domain => some ⟨w.sets.domainSetFree cfg domain, w.delivered⟩
  | .behind e => some ⟨w.sets.setSeed cfg.seedSetSize e, w.delivered⟩

end MplWorld

end Asap.Mpl
