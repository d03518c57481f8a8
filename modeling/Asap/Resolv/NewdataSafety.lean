import Asap.Resolv.Newdata

/-!
# What is read and written for a message

The functions that go through a message do not know its length, an entry is taken behind the table
where none is available, and no message is looked at whether it is a response. A message is
processed safely where its names and records fit.

## Main definitions

* `NewdataSafe` — a message is processed inside the message and the table, and changes entries only
  if it is a response for them.
* `NewdataFits` — the messages for which it is.
-/

namespace Asap.Resolv

open Lib List Option

variable {cfg : ResolvConfig} {mem : ℕ → Byte} {len fuel n pos stop : ℕ} {hostname : List Byte}
  {names : List NameMap} {msg : DnsMsg} {st : Resolver}

/-- A write to an entry of the table, and to its name within its buffer. The entry has asked with the
identifier of the message, or has the name of a multicast answer, or is available. -/
structure NameWrite.Allowed (cfg : ResolvConfig) (mem : ℕ → Byte) (size : ℕ) (w : NameWrite) :
    Prop where
  index : w.index < size
  bytes : w.bytes.length ≤ cfg.maxName
  entry : ∃ e, w.entry = some e ∧
    match w.answer with
    | none => e.state = .asking ∧ e.id = word mem 0
    | some pos => (dnsNameIsequal mem pos e.name).1 = true ∨ e.available cfg = true

/-- What is read and written for a message is inside, and is written for a response. -/
structure NewdataRun.Safe (cfg : ResolvConfig) (mem : ℕ → Byte) (len size : ℕ) (run : NewdataRun) :
    Prop where
  reads : ∀ r ∈ run.reads, r < len
  writes : ∀ w ∈ run.writes, w.Allowed cfg mem size
  response : run.writes ≠ [] → isResponse mem = true

/-- A message is processed, inside the message and the table, and changes entries only if it is a
response for them. -/
def NewdataSafe (cfg : ResolvConfig) (msg : DnsMsg) (st : Resolver) : Prop :=
  ∃ fuel run, newdata cfg msg st fuel = some run ∧
    run.Safe cfg msg.mem msg.len st.names.length ∧
    ∀ i, (∀ w ∈ run.writes, w.index ≠ i) → run.names[i]? = st.names[i]?

/-! ## Messages that fit -/

/-- A name is compared with a string inside the message. -/
def IsequalFits (mem : ℕ → Byte) (len pos : ℕ) (name : List Byte) : Prop :=
  pos < len ∧ (name ≠ [] → EqualFits mem len (name.length + 1) (mem pos) (pos + 1) name)

/-- A question of a request is for the host. -/
def forUs (mem : ℕ → Byte) (hostname : List Byte) (pos stop : ℕ) : Bool :=
  isRequest mem && questionOk mem stop && (dnsNameIsequal mem pos hostname).1

/-- The questions from one on fit, up to where the answers begin, or the message is answered. -/
def QuestionsFit (cfg : ResolvConfig) (mem : ℕ → Byte) (len : ℕ) (hostname : List Byte) :
    ℕ → ℕ → Option ℕ → Prop
  | 0, pos, stop => stop = some pos
  | n + 1, pos, stop => ∃ nameEnd, NameEnds mem len pos nameEnd ∧
      (isRequest mem = true → nameEnd + 4 ≤ len ∧
        (questionOk mem nameEnd = true → IsequalFits mem len pos hostname)) ∧
      if forUs mem hostname pos nameEnd = true ∧ cfg.ready = true then stop = none
      else (forUs mem hostname pos nameEnd = true → 10 ≤ len) ∧
        QuestionsFit cfg mem len hostname n (nameEnd + 4) stop

/-- The name of an answer is compared inside the message with the names of entries, up to the one
that has it. -/
def LookupFits (mem : ℕ → Byte) (len pos : ℕ) : List NameMap → Prop
  | [] => True
  | e :: names => IsequalFits mem len pos e.name ∧
      ((dnsNameIsequal mem pos e.name).1 = false → LookupFits mem len pos names)

/-- The answers from one on fit. Where they are for any names, an answer with an address is in a
response, and its name is in the table or there is an entry for it. -/
def AnswersFit (cfg : ResolvConfig) (mem : ℕ → Byte) (len : ℕ) (multicast : Bool) :
    ℕ → ℕ → List NameMap → Prop
  | 0, _, _ => True
  | n + 1, pos, names => ∃ stop, NameEnds mem len pos stop ∧ stop + 26 ≤ len ∧
      if answerOk mem stop then
        multicast = true → isResponse mem = true ∧ LookupFits mem len pos names ∧
          ((lookup cfg mem pos names 0 names.length).found = none →
            (∃ e ∈ names, e.available cfg = true) ∧
            DecodeFits mem len (cfg.maxName + 1) (mem pos) (pos + 1) cfg.maxName ∧
            ((decodeName mem cfg.maxName pos).fits = false →
              AnswersFit cfg mem len multicast n (nextAnswer mem stop)
                (names.modify (lookup cfg mem pos names 0 names.length).available
                  (·.withName (decodeName mem cfg.maxName pos).bytes))))
      else AnswersFit cfg mem len multicast n (nextAnswer mem stop) names

/-- The part behind the questions fits. -/
def NewdataAnswersFit (cfg : ResolvConfig) (msg : DnsMsg) (st : Resolver) (pos : ℕ) : Prop :=
  msg.mem 7 ≠ 0 →
    if msg.mdnsPort ∧ word msg.mem 0 = 0 then
      AnswersFit cfg msg.mem msg.len true (msg.mem 7).toNat pos st.names
    else asked msg.mem st.names ≠ none → isResponse msg.mem = true ∧
      (msg.mem 3 &&& 0x0F = 0 →
        AnswersFit cfg msg.mem msg.len false (msg.mem 7).toNat pos st.names)

/-- The messages that are processed as they should be. -/
def NewdataFits (cfg : ResolvConfig) (msg : DnsMsg) (st : Resolver) : Prop :=
  8 ≤ msg.len ∧ (¬ (isRequest msg.mem = true ∧ msg.mem 5 = 0) →
    ∃ stop, QuestionsFit cfg msg.mem msg.len st.hostname (msg.mem 5).toNat 12 stop ∧
      ∀ pos, stop = some pos → NewdataAnswersFit cfg msg st pos)

/-! ## Questions -/

theorem readsAt_inside {k : ℕ} (hk : 0 < k) : (∀ r ∈ readsAt pos k, r < len) ↔ pos + k ≤ len := by
  simp only [readsAt, List.forall_mem_map, mem_range]
  constructor
  · intro h
    have hlast := h (k - 1) (by omega)
    omega
  · intro h i hi
    omega

theorem isequal_inside {name : List Byte} :
    (∀ r ∈ (dnsNameIsequal mem pos name).2, r < len) ↔ IsequalFits mem len pos name :=
  dnsNameIsequal_inside

/-- What is read for a question besides its name. -/
def questionReads (cfg : ResolvConfig) (mem : ℕ → Byte) (hostname : List Byte)
    (pos nameEnd : ℕ) : List ℕ :=
  if isRequest mem then
    readsAt nameEnd 4 ++
      if questionOk mem nameEnd then
        (dnsNameIsequal mem pos hostname).2 ++
          if (dnsNameIsequal mem pos hostname).1 ∧ ¬ cfg.ready then readsAt 8 2 else []
      else []
  else []

theorem questionReads_inside {nameEnd : ℕ} :
    (∀ r ∈ questionReads cfg mem hostname pos nameEnd, r < len) ↔
      (isRequest mem = true → nameEnd + 4 ≤ len ∧
        (questionOk mem nameEnd = true → IsequalFits mem len pos hostname)) ∧
      (forUs mem hostname pos nameEnd = true → ¬ cfg.ready = true → 10 ≤ len) := by
  rw [questionReads, forUs]
  have hnil : ∀ r ∈ ([] : List ℕ), r < len := fun r hr => absurd hr not_mem_nil
  by_cases hrequest : isRequest mem = true
  · rw [if_pos hrequest, forall_mem_append, readsAt_inside (by decide), hrequest]
    by_cases hok : questionOk mem nameEnd = true
    · rw [if_pos hok, forall_mem_append, isequal_inside, hok]
      by_cases hequal : (dnsNameIsequal mem pos hostname).1 = true
      · by_cases hready : cfg.ready = true
        · simp [hready, hequal]
        · rw [if_pos ⟨hequal, hready⟩, readsAt_inside (by decide), hequal]
          simp [hready, and_assoc]
      · simp [hequal]
    · rw [if_neg hok]
      simp [hok]
  · rw [if_neg hrequest]
    simp [hrequest]

/-- One question. -/
theorem questions_succ {nameEnd : ℕ} {nameReads : List ℕ}
    (hname : skipName mem fuel pos = some (nameEnd, nameReads)) :
    questions cfg mem hostname fuel (n + 1) pos =
      if forUs mem hostname pos nameEnd = true ∧ cfg.ready = true then
        some (none, nameReads ++ questionReads cfg mem hostname pos nameEnd)
      else (questions cfg mem hostname fuel n (nameEnd + 4)).map fun rest =>
        (rest.1, nameReads ++ questionReads cfg mem hostname pos nameEnd ++ rest.2) := by
  rw [questions, hname]
  dsimp only
  rw [forUs, questionReads]
  by_cases hrequest : isRequest mem = true
  · rw [if_pos hrequest, if_pos hrequest, hrequest]
    by_cases hok : questionOk mem nameEnd = true
    · rw [if_pos hok, if_pos hok, hok]
      by_cases hequal : (dnsNameIsequal mem pos hostname).1 = true
      · by_cases hready : cfg.ready = true
        · simp [hequal, hready]
        · simp [hequal, hready]
      · simp [hequal]
    · rw [if_neg hok, if_neg hok]
      simp [hok]
  · rw [if_neg hrequest, if_neg hrequest]
    simp [hrequest]

/-- Questions that are gone through inside the message fit. -/
theorem questionsFit_of_questions {last : Option ℕ} {reads : List ℕ}
    (h : questions cfg mem hostname fuel n pos = some (last, reads)) (hin : ∀ r ∈ reads, r < len) :
    QuestionsFit cfg mem len hostname n pos last := by
  induction n generalizing pos reads with
  | zero =>
    obtain ⟨rfl, -⟩ := Prod.mk.inj (Option.some.inj h)
    rfl
  | succ n ih =>
    cases hname : skipName mem fuel pos with
    | none =>
      rw [questions, hname] at h
      exact absurd h.symm (some_ne_none _)
    | some found =>
      obtain ⟨nameEnd, nameReads⟩ := found
      rw [questions_succ hname] at h
      rw [QuestionsFit]
      by_cases hready : forUs mem hostname pos nameEnd = true ∧ cfg.ready = true
      · rw [if_pos hready] at h
        obtain ⟨rfl, rfl⟩ := Prod.mk.inj (Option.some.inj h)
        obtain ⟨hnameIn, hquestion⟩ := forall_mem_append.mp hin
        exact ⟨nameEnd, nameEnds_of_skipName hname hnameIn, (questionReads_inside.mp hquestion).1,
          by rw [if_pos hready]⟩
      · rw [if_neg hready, map_eq_some_iff] at h
        obtain ⟨rest, hrest, heq⟩ := h
        obtain ⟨rfl, rfl⟩ := Prod.mk.inj heq
        obtain ⟨hfirst, hrestIn⟩ := forall_mem_append.mp hin
        obtain ⟨hnameIn, hquestion⟩ := forall_mem_append.mp hfirst
        refine ⟨nameEnd, nameEnds_of_skipName hname hnameIn, (questionReads_inside.mp hquestion).1,
          ?_⟩
        rw [if_neg hready]
        exact ⟨fun hus => (questionReads_inside.mp hquestion).2 hus fun hr => hready ⟨hus, hr⟩,
          ih hrest hrestIn⟩

/-- Questions that fit are gone through inside the message. -/
theorem QuestionsFit.questions {last : Option ℕ} (hfuel : len ≤ fuel)
    (h : QuestionsFit cfg mem len hostname n pos last) :
    ∃ reads, questions cfg mem hostname fuel n pos = some (last, reads) ∧ ∀ r ∈ reads, r < len := by
  induction n generalizing pos with
  | zero =>
    obtain rfl : last = some pos := h
    exact ⟨[], rfl, fun r hr => absurd hr not_mem_nil⟩
  | succ n ih =>
    obtain ⟨nameEnd, hname, hrequest, hcase⟩ := h
    obtain ⟨nameReads, hskip, hnameIn⟩ := hname.skipName (show len ≤ fuel + pos by omega)
    rw [questions_succ hskip]
    by_cases hready : forUs mem hostname pos nameEnd = true ∧ cfg.ready = true
    · rw [if_pos hready] at hcase ⊢
      refine ⟨_, by rw [hcase], forall_mem_append.mpr ⟨hnameIn, ?_⟩⟩
      exact questionReads_inside.mpr ⟨hrequest, fun _ hr => absurd hready.2 hr⟩
    · rw [if_neg hready] at hcase ⊢
      obtain ⟨reads, hrest, hrestIn⟩ := ih hcase.2
      refine ⟨_, by rw [hrest]; rfl, forall_mem_append.mpr ⟨forall_mem_append.mpr
        ⟨hnameIn, ?_⟩, hrestIn⟩⟩
      exact questionReads_inside.mpr ⟨hrequest, fun hus _ => hcase.1 hus⟩

/-! ## The table -/

theorem lookup_inside {i available : ℕ} :
    (∀ r ∈ (lookup cfg mem pos names i available).reads, r < len) ↔
      LookupFits mem len pos names := by
  induction names generalizing i available with
  | nil => exact ⟨fun _ => trivial, fun _ r hr => absurd hr not_mem_nil⟩
  | cons e names ih =>
    rw [lookup, LookupFits]
    by_cases hequal : (dnsNameIsequal mem pos e.name).1 = true
    · rw [if_pos hequal, hequal, isequal_inside]
      exact (and_iff_left fun h => absurd h.symm Bool.false_ne_true).symm
    · rw [if_neg hequal, forall_prop_of_true (Bool.eq_false_iff.mpr hequal)]
      dsimp only
      rw [forall_mem_append, isequal_inside, ih]

/-- The entry that is found has the name. -/
theorem lookup_found {i available j : ℕ}
    (h : (lookup cfg mem pos names i available).found = some j) :
    ∃ k e, j = i + k ∧ names[k]? = some e ∧ (dnsNameIsequal mem pos e.name).1 = true := by
  induction names generalizing i available with
  | nil => exact absurd h.symm (some_ne_none j)
  | cons e names ih =>
    rw [lookup] at h
    by_cases hequal : (dnsNameIsequal mem pos e.name).1 = true
    · rw [if_pos hequal] at h
      exact ⟨0, e, (Option.some.inj h).symm, rfl, hequal⟩
    · rw [if_neg hequal] at h
      obtain ⟨k, e', hj, hk, hequal'⟩ := ih h
      exact ⟨k + 1, e', by omega, hk, hequal'⟩

/-- Where no entry has the name, the place is that of an entry that is available, if there is one. -/
theorem lookup_available {i available : ℕ}
    (h : (lookup cfg mem pos names i available).found = none) :
    (∃ k e, (lookup cfg mem pos names i available).available = i + k ∧ names[k]? = some e ∧
      e.available cfg = true) ∨
    ((lookup cfg mem pos names i available).available = available ∧
      ∀ e ∈ names, ¬ e.available cfg = true) := by
  induction names generalizing i available with
  | nil => exact Or.inr ⟨rfl, fun e he => absurd he not_mem_nil⟩
  | cons e names ih =>
    rw [lookup] at h ⊢
    by_cases hequal : (dnsNameIsequal mem pos e.name).1 = true
    · rw [if_pos hequal] at h
      exact absurd h (some_ne_none i)
    · rw [if_neg hequal] at h ⊢
      dsimp only at h ⊢
      cases ih h with
      | inl hlater =>
        obtain ⟨k, e', havailable, hk, he'⟩ := hlater
        exact Or.inl ⟨k + 1, e', by omega, hk, he'⟩
      | inr hnone =>
        obtain ⟨havailable, hnone⟩ := hnone
        by_cases he : e.available cfg = true
        · rw [if_pos he] at havailable ⊢
          exact Or.inl ⟨0, e, havailable, rfl, he⟩
        · rw [if_neg he] at havailable ⊢
          exact Or.inr ⟨havailable, forall_mem_cons.mpr ⟨he, hnone⟩⟩

/-- An entry is available where the place is in the table. -/
theorem available_lt_iff (h : (lookup cfg mem pos names 0 names.length).found = none) :
    (∃ e ∈ names, e.available cfg = true) ↔
      (lookup cfg mem pos names 0 names.length).available < names.length := by
  cases lookup_available h with
  | inl hsome =>
    obtain ⟨k, e, havailable, hk, he⟩ := hsome
    obtain ⟨hlt, heq⟩ := List.getElem?_eq_some_iff.mp hk
    refine ⟨fun _ => by omega, fun _ => ⟨e, ?_, he⟩⟩
    rw [← heq]
    exact getElem_mem hlt
  | inr hnone =>
    obtain ⟨havailable, hnone⟩ := hnone
    constructor
    · rintro ⟨e, hmem, he⟩
      exact absurd he (hnone e hmem)
    · intro hlt
      omega

/-! ## Answers -/

section

variable {target : Option (ℕ × Option NameMap)} {nameReads : List ℕ} {run : NewdataRun} {size : ℕ}

theorem answers_skip (hname : skipName mem fuel pos = some (stop, nameReads))
    (hok : ¬ answerOk mem stop = true) :
    answers cfg mem target fuel (n + 1) pos hostname names =
      (answers cfg mem target fuel n (nextAnswer mem stop) hostname names).map
        (.after (nameReads ++ readsAt stop 26) []) := by
  rw [answers, hname]
  dsimp only
  rw [if_neg hok]

theorem answers_unicast {i : ℕ} {entry : Option NameMap}
    (hname : skipName mem fuel pos = some (stop, nameReads)) (hok : answerOk mem stop = true) :
    answers cfg mem (some (i, entry)) fuel (n + 1) pos hostname names =
      some ⟨names.modify i (·.answered cfg mem stop), nameReads ++ readsAt stop 26,
        [⟨i, entry, [], none⟩], true⟩ := by
  rw [answers, hname]
  dsimp only
  rw [if_pos hok]

theorem answers_found {i : ℕ} (hname : skipName mem fuel pos = some (stop, nameReads))
    (hok : answerOk mem stop = true)
    (hfound : (lookup cfg mem pos names 0 names.length).found = some i) :
    answers cfg mem none fuel (n + 1) pos hostname names =
      some ⟨names.modify i (·.answered cfg mem stop),
        nameReads ++ readsAt stop 26 ++ (lookup cfg mem pos names 0 names.length).reads,
        [⟨i, names[i]?, [], some pos⟩], true⟩ := by
  rw [answers, hname]
  dsimp only
  rw [if_pos hok, hfound]

/-- The name of an answer is not in the table, and is decoded. -/
theorem answers_decoded (hname : skipName mem fuel pos = some (stop, nameReads))
    (hok : answerOk mem stop = true)
    (hnone : (lookup cfg mem pos names 0 names.length).found = none) :
    answers cfg mem none fuel (n + 1) pos hostname names =
      let i := (lookup cfg mem pos names 0 names.length).available
      let decoded := decodeName mem cfg.maxName pos
      let named := names.modify i (·.withName decoded.bytes)
      let write : NameWrite := ⟨i, names[i]?, decoded.bytes, some pos⟩
      let reads := nameReads ++ readsAt stop 26 ++
        (lookup cfg mem pos names 0 names.length).reads ++ decoded.reads
      if decoded.fits then
        if i = names.length then
          (answers cfg mem none fuel n (nextAnswer mem stop)
            (if (dnsNameIsequal mem pos hostname).1 then cfg.renamed hostname else hostname)
            named).map (.after (reads ++ (dnsNameIsequal mem pos hostname).2) [write])
        else some ⟨named.modify i (·.answered cfg mem stop), reads, [write], true⟩
      else (answers cfg mem none fuel n (nextAnswer mem stop) hostname named).map
        (.after reads [write]) := by
  rw [answers, hname]
  dsimp only
  rw [if_pos hok, hnone]

theorem NewdataRun.after_safe {reads : List ℕ} {writes : List NameWrite} :
    (run.after reads writes).Safe cfg mem len size ↔
      (∀ r ∈ reads, r < len) ∧ (∀ w ∈ writes, w.Allowed cfg mem size) ∧
        (writes ≠ [] → isResponse mem = true) ∧ run.Safe cfg mem len size := by
  constructor
  · rintro ⟨hreads, hwrites, hresponse⟩
    obtain ⟨hread, hreadRun⟩ := forall_mem_append.mp hreads
    obtain ⟨hwrite, hwriteRun⟩ := forall_mem_append.mp hwrites
    refine ⟨hread, hwrite, fun hne => hresponse ?_, hreadRun, hwriteRun, fun hne => hresponse ?_⟩
    · exact append_ne_nil_of_left_ne_nil hne _
    · exact append_ne_nil_of_right_ne_nil _ hne
  · rintro ⟨hread, hwrite, hresponse, hrun⟩
    refine ⟨forall_mem_append.mpr ⟨hread, hrun.reads⟩,
      forall_mem_append.mpr ⟨hwrite, hrun.writes⟩, fun hne => ?_⟩
    by_cases hnil : writes = []
    · refine hrun.response fun hrunNil => hne ?_
      show writes ++ run.writes = []
      rw [hnil, hrunNil, append_nil]
    · exact hresponse hnil

/-- A single entry is written. -/
theorem one_write_safe {reads : List ℕ} {w : NameWrite} {usable : Bool} :
    (NewdataRun.mk names reads [w] usable).Safe cfg mem len size ↔
      (∀ r ∈ reads, r < len) ∧ w.Allowed cfg mem size ∧ isResponse mem = true := by
  constructor
  · intro h
    exact ⟨h.reads, h.writes w mem_cons_self, h.response (cons_ne_nil _ _)⟩
  · rintro ⟨hreads, hwrite, hresponse⟩
    exact ⟨hreads, fun w' hw' => by rwa [mem_singleton.mp hw'], fun _ => hresponse⟩

/-- Answers that are processed as they should be fit. -/
theorem answersFit_of_answers (hsize : names.length = size)
    (h : answers cfg mem target fuel n pos hostname names = some run)
    (hsafe : run.Safe cfg mem len size) :
    AnswersFit cfg mem len target.isNone n pos names := by
  induction n generalizing pos hostname names run with
  | zero => trivial
  | succ n ih =>
    cases hname : skipName mem fuel pos with
    | none =>
      rw [answers, hname] at h
      exact absurd h.symm (some_ne_none _)
    | some found =>
      obtain ⟨stop, nameReads⟩ := found
      -- the name and the fixed part are read first
      have hfixed : ∀ reads, (∀ r ∈ nameReads ++ readsAt stop 26 ++ reads, r < len) →
          NameEnds mem len pos stop ∧ stop + 26 ≤ len ∧ ∀ r ∈ reads, r < len := by
        intro reads hin
        obtain ⟨hfirst, hrest⟩ := forall_mem_append.mp hin
        obtain ⟨hnameIn, hans⟩ := forall_mem_append.mp hfirst
        exact ⟨nameEnds_of_skipName hname hnameIn, (readsAt_inside (by decide)).mp hans, hrest⟩
      rw [AnswersFit]
      by_cases hok : answerOk mem stop = true
      · cases target with
        | some entry =>
          rw [answers_unicast hname hok] at h
          obtain rfl := Option.some.inj h
          obtain ⟨hends, hlen, -⟩ := hfixed [] (by rw [append_nil]; exact hsafe.reads)
          refine ⟨stop, hends, hlen, ?_⟩
          rw [if_pos hok]
          exact fun hmulticast => absurd hmulticast Bool.false_ne_true
        | none =>
          cases hfound : (lookup cfg mem pos names 0 names.length).found with
          | some i =>
            rw [answers_found hname hok hfound] at h
            obtain rfl := Option.some.inj h
            obtain ⟨hreads, -, hresponse⟩ := one_write_safe.mp hsafe
            obtain ⟨hends, hlen, hlookup⟩ := hfixed _ hreads
            refine ⟨stop, hends, hlen, ?_⟩
            rw [if_pos hok]
            exact fun _ => ⟨hresponse, lookup_inside.mp hlookup,
              fun hnone => absurd hnone (some_ne_none i)⟩
          | none =>
            rw [answers_decoded hname hok hfound] at h
            dsimp only at h
            by_cases hfits : (decodeName mem cfg.maxName pos).fits = true
            · rw [if_pos hfits] at h
              by_cases hbehind :
                  (lookup cfg mem pos names 0 names.length).available = names.length
              · rw [if_pos hbehind, map_eq_some_iff] at h
                obtain ⟨rest, -, rfl⟩ := h
                obtain ⟨-, hwrite, -, -⟩ := NewdataRun.after_safe.mp hsafe
                have hindex := (hwrite _ mem_cons_self).index
                exact absurd hindex (by rw [hbehind, hsize]; exact Nat.lt_irrefl _)
              · rw [if_neg hbehind] at h
                obtain rfl := Option.some.inj h
                obtain ⟨hreads, hwrite, hresponse⟩ := one_write_safe.mp hsafe
                obtain ⟨hbefore, hdecode⟩ := forall_mem_append.mp hreads
                obtain ⟨hends, hlen, hlookup⟩ := hfixed _ hbefore
                refine ⟨stop, hends, hlen, ?_⟩
                rw [if_pos hok]
                refine fun _ => ⟨hresponse, lookup_inside.mp hlookup, fun _ => ⟨?_,
                  (decodeName_inside.mp hdecode).2, fun hbig => ?_⟩⟩
                · exact (available_lt_iff hfound).mpr (Nat.lt_of_lt_of_eq hwrite.index hsize.symm)
                · rw [hfits] at hbig
                  exact absurd hbig.symm Bool.false_ne_true
            · rw [if_neg hfits, map_eq_some_iff] at h
              obtain ⟨rest, hrest, rfl⟩ := h
              obtain ⟨hreads, hwrite, hresponse, hrun⟩ := NewdataRun.after_safe.mp hsafe
              obtain ⟨hbefore, hdecode⟩ := forall_mem_append.mp hreads
              obtain ⟨hends, hlen, hlookup⟩ := hfixed _ hbefore
              refine ⟨stop, hends, hlen, ?_⟩
              rw [if_pos hok]
              refine fun _ => ⟨hresponse (cons_ne_nil _ _), lookup_inside.mp hlookup,
                fun _ => ⟨?_, (decodeName_inside.mp hdecode).2, fun _ => ?_⟩⟩
              · exact (available_lt_iff hfound).mpr
                  (Nat.lt_of_lt_of_eq (hwrite _ mem_cons_self).index hsize.symm)
              · exact ih (by rw [length_modify, hsize]) hrest hrun
      · rw [answers_skip hname hok, map_eq_some_iff] at h
        obtain ⟨rest, hrest, rfl⟩ := h
        obtain ⟨hreads, -, -, hrun⟩ := NewdataRun.after_safe.mp hsafe
        obtain ⟨hends, hlen, -⟩ := hfixed [] (by rw [append_nil]; exact hreads)
        refine ⟨stop, hends, hlen, ?_⟩
        rw [if_neg hok]
        exact ih hsize hrest hrun

/-- Answers that fit are processed as they should be. -/
theorem AnswersFit.answers (hsize : names.length = size) (hfuel : len ≤ fuel)
    (htarget : ∀ i entry, target = some (i, entry) →
      NameWrite.Allowed cfg mem size ⟨i, entry, [], none⟩ ∧ isResponse mem = true)
    (h : AnswersFit cfg mem len target.isNone n pos names) :
    ∃ run, answers cfg mem target fuel n pos hostname names = some run ∧
      run.Safe cfg mem len size := by
  induction n generalizing pos hostname names with
  | zero =>
    refine ⟨_, rfl, fun r hr => absurd hr not_mem_nil, fun w hw => absurd hw not_mem_nil,
      fun hne => absurd rfl hne⟩
  | succ n ih =>
    obtain ⟨stop, hends, hlen, hcase⟩ := h
    obtain ⟨nameReads, hname, hnameIn⟩ := hends.skipName (show len ≤ fuel + pos by omega)
    have hfixed : ∀ r ∈ nameReads ++ readsAt stop 26, r < len :=
      forall_mem_append.mpr ⟨hnameIn, (readsAt_inside (by decide)).mpr hlen⟩
    by_cases hok : answerOk mem stop = true
    · rw [if_pos hok] at hcase
      cases target with
      | some entry =>
        obtain ⟨hallowed, hresponse⟩ := htarget entry.1 entry.2 rfl
        exact ⟨_, answers_unicast hname hok, one_write_safe.mpr ⟨hfixed, hallowed, hresponse⟩⟩
      | none =>
        obtain ⟨hresponse, hlookup, hnew⟩ := hcase rfl
        have hreads : ∀ r ∈ nameReads ++ readsAt stop 26 ++
            (lookup cfg mem pos names 0 names.length).reads, r < len :=
          forall_mem_append.mpr ⟨hfixed, lookup_inside.mpr hlookup⟩
        cases hfound : (lookup cfg mem pos names 0 names.length).found with
        | some i =>
          refine ⟨_, answers_found hname hok hfound, one_write_safe.mpr ⟨hreads, ?_, hresponse⟩⟩
          obtain ⟨k, e, hik, hk, hequal⟩ := lookup_found hfound
          rw [Nat.zero_add] at hik
          obtain ⟨hlt, -⟩ := List.getElem?_eq_some_iff.mp hk
          exact ⟨by rw [hik, ← hsize]; exact hlt, Nat.zero_le _, e, by rw [hik]; exact hk,
            Or.inl hequal⟩
        | none =>
          obtain ⟨havailable, hdecode, hbig⟩ := hnew hfound
          have hindex := (available_lt_iff hfound).mp havailable
          have hdecodeReads := decodeName_inside.mpr ⟨hends.pos_lt, hdecode⟩
          have hallowed : NameWrite.Allowed cfg mem size
              ⟨(lookup cfg mem pos names 0 names.length).available,
                names[(lookup cfg mem pos names 0 names.length).available]?,
                (decodeName mem cfg.maxName pos).bytes, some pos⟩ := by
            refine ⟨by rw [← hsize]; exact hindex, decodeLoop_length, ?_⟩
            cases lookup_available hfound with
            | inl hsome =>
              obtain ⟨k, e, hk, hget, he⟩ := hsome
              rw [Nat.zero_add] at hk
              exact ⟨e, by rw [hk]; exact hget, Or.inr he⟩
            | inr hnone => exact absurd hnone.1 (Nat.ne_of_lt hindex)
          have hall := forall_mem_append.mpr ⟨hreads, hdecodeReads⟩
          rw [answers_decoded hname hok hfound]
          dsimp only
          by_cases hfits : (decodeName mem cfg.maxName pos).fits = true
          · rw [if_pos hfits, if_neg (Nat.ne_of_lt hindex)]
            exact ⟨_, rfl, one_write_safe.mpr ⟨hall, hallowed, hresponse⟩⟩
          · rw [if_neg hfits]
            obtain ⟨run, hrun, hsafe⟩ : ∃ run, Resolv.answers cfg mem none fuel n
                (nextAnswer mem stop) hostname _ = some run ∧ run.Safe cfg mem len size :=
              ih (by rw [length_modify, hsize]) (hbig (Bool.eq_false_iff.mpr hfits))
            rw [hrun]
            refine ⟨_, rfl, NewdataRun.after_safe.mpr ⟨hall, fun w hw => ?_, fun _ => hresponse,
              hsafe⟩⟩
            rw [mem_singleton.mp hw]
            exact hallowed
    · rw [if_neg hok] at hcase
      obtain ⟨run, hrun, hsafe⟩ : ∃ run, Resolv.answers cfg mem target fuel n
          (nextAnswer mem stop) hostname names = some run ∧ run.Safe cfg mem len size :=
        ih hsize hcase
      rw [answers_skip hname hok, hrun]
      exact ⟨_, rfl, NewdataRun.after_safe.mpr ⟨hfixed, fun w hw => absurd hw not_mem_nil,
        fun hne => absurd rfl hne, hsafe⟩⟩

/-- What is not written stays. -/
theorem answers_frame (h : Resolv.answers cfg mem target fuel n pos hostname names = some run) {i : ℕ}
    (hi : ∀ w ∈ run.writes, w.index ≠ i) : run.names[i]? = names[i]? := by
  induction n generalizing pos hostname names run with
  | zero =>
    obtain rfl := Option.some.inj h
    rfl
  | succ n ih =>
    cases hname : skipName mem fuel pos with
    | none =>
      rw [Resolv.answers, hname] at h
      exact absurd h.symm (some_ne_none _)
    | some found =>
      obtain ⟨stop, nameReads⟩ := found
      by_cases hok : answerOk mem stop = true
      · cases target with
        | some entry =>
          rw [answers_unicast hname hok] at h
          obtain rfl := Option.some.inj h
          exact List.getElem?_modify_ne _ _ (hi _ mem_cons_self)
        | none =>
          cases hfound : (lookup cfg mem pos names 0 names.length).found with
          | some j =>
            rw [answers_found hname hok hfound] at h
            obtain rfl := Option.some.inj h
            exact List.getElem?_modify_ne _ _ (hi _ mem_cons_self)
          | none =>
            rw [answers_decoded hname hok hfound] at h
            dsimp only at h
            by_cases hfits : (decodeName mem cfg.maxName pos).fits = true
            · rw [if_pos hfits] at h
              by_cases hbehind :
                  (lookup cfg mem pos names 0 names.length).available = names.length
              · rw [if_pos hbehind] at h
                obtain ⟨rest, hrest, rfl⟩ := map_eq_some_iff.mp h
                obtain ⟨hfirst, hmore⟩ := forall_mem_cons.mp hi
                exact (ih hrest hmore).trans (List.getElem?_modify_ne _ _ hfirst)
              · rw [if_neg hbehind] at h
                obtain rfl := Option.some.inj h
                have hne := hi _ mem_cons_self
                exact (List.getElem?_modify_ne _ _ hne).trans (List.getElem?_modify_ne _ _ hne)
            · rw [if_neg hfits] at h
              obtain ⟨rest, hrest, rfl⟩ := map_eq_some_iff.mp h
              obtain ⟨hfirst, hmore⟩ := forall_mem_cons.mp hi
              exact (ih hrest hmore).trans (List.getElem?_modify_ne _ _ hfirst)
      · rw [answers_skip hname hok] at h
        obtain ⟨rest, hrest, rfl⟩ := map_eq_some_iff.mp h
        have hsame : rest.names[i]? = names[i]? := ih hrest fun w hw => hi w hw
        exact hsame

end

/-! ## The message -/

section

variable {run : NewdataRun} {size : ℕ}

/-- The entry of a query has asked with the identifier of the message. -/
theorem asked_spec {i : ℕ} (h : asked mem names = some i) :
    ∃ e, names[i]? = some e ∧ e.state = .asking ∧ e.id = word mem 0 := by
  obtain ⟨hlt, hi, -⟩ := List.findIdx?_eq_some_iff_getElem.mp h
  exact ⟨names[i], List.getElem?_eq_getElem hlt, of_decide_eq_true hi⟩

theorem nothing_safe (names : List NameMap) {usable : Bool} :
    (NewdataRun.mk names [] [] usable).Safe cfg mem len size :=
  ⟨fun _ hr => absurd hr not_mem_nil, fun _ hw => absurd hw not_mem_nil,
    fun hne => absurd rfl hne⟩

theorem reads_safe {reads : List ℕ} (names : List NameMap) {usable : Bool} :
    (NewdataRun.mk names reads [] usable).Safe cfg mem len size ↔ ∀ r ∈ reads, r < len :=
  ⟨fun h => h.reads, fun h =>
    ⟨h, fun _ hw => absurd hw not_mem_nil, fun hne => absurd rfl hne⟩⟩

/-- For a query, it does not matter what is in the table. -/
theorem answersFit_unicast {names names' : List NameMap}
    (h : AnswersFit cfg mem len false n pos names) : AnswersFit cfg mem len false n pos names' := by
  induction n generalizing pos with
  | zero => trivial
  | succ n ih =>
    obtain ⟨stop, hends, hlen, hcase⟩ := h
    refine ⟨stop, hends, hlen, ?_⟩
    by_cases hok : answerOk mem stop = true
    · rw [if_pos hok]
      exact fun hmulticast => absurd hmulticast Bool.false_ne_true
    · rw [if_neg hok] at hcase ⊢
      exact ih hcase

/-- The answers to a query that are processed as they should be fit. -/
theorem unicastFit_of_answers {i : ℕ} (h : unicastAnswers cfg msg st fuel pos i = some run)
    (hsafe : run.Safe cfg msg.mem msg.len st.names.length) :
    isResponse msg.mem = true ∧ (msg.mem 3 &&& 0x0F = 0 →
      AnswersFit cfg msg.mem msg.len false (msg.mem 7).toNat pos st.names) := by
  rw [unicastAnswers] at h
  by_cases herr : msg.mem 3 &&& 0x0F = 0
  · rw [if_neg (not_not.mpr herr)] at h
    obtain ⟨rest, hrest, rfl⟩ := map_eq_some_iff.mp h
    refine ⟨hsafe.response (cons_ne_nil _ _), fun _ => ?_⟩
    have hrestSafe : rest.Safe cfg msg.mem msg.len st.names.length :=
      ⟨hsafe.reads, fun w hw => hsafe.writes w (mem_cons_of_mem _ hw),
        fun _ => hsafe.response (cons_ne_nil _ _)⟩
    exact answersFit_unicast (answersFit_of_answers (length_modify _ _ _) hrest hrestSafe)
  · rw [if_pos herr] at h
    obtain rfl := Option.some.inj h
    exact ⟨hsafe.response (cons_ne_nil _ _), fun hzero => absurd hzero herr⟩

/-- The answers to a query that fit are processed as they should be. -/
theorem unicastAnswers_of_fit {i : ℕ} (hasked : asked msg.mem st.names = some i)
    (hfuel : msg.len ≤ fuel) (hresponse : isResponse msg.mem = true)
    (hfit : msg.mem 3 &&& 0x0F = 0 →
      AnswersFit cfg msg.mem msg.len false (msg.mem 7).toNat pos st.names) :
    ∃ run, unicastAnswers cfg msg st fuel pos i = some run ∧
      run.Safe cfg msg.mem msg.len st.names.length := by
  obtain ⟨e, hget, hstate, hid⟩ := asked_spec hasked
  have hallowed : NameWrite.Allowed cfg msg.mem st.names.length ⟨i, st.names[i]?, [], none⟩ :=
    ⟨(List.getElem?_eq_some_iff.mp hget).1, Nat.zero_le _, e, hget, hstate, hid⟩
  rw [unicastAnswers]
  by_cases herr : msg.mem 3 &&& 0x0F = 0
  · rw [if_neg (not_not.mpr herr)]
    obtain ⟨run, hrun, hsafe⟩ : ∃ run, answers cfg msg.mem (some (i, st.names[i]?)) fuel
        (msg.mem 7).toNat pos st.hostname (st.names.modify i (·.failed cfg msg.mem)) = some run ∧
          run.Safe cfg msg.mem msg.len st.names.length := by
      refine AnswersFit.answers (by rw [length_modify]) hfuel (fun j entry heq => ?_)
        (answersFit_unicast (hfit herr))
      obtain ⟨rfl, rfl⟩ := Prod.mk.inj (Option.some.inj heq)
      exact ⟨hallowed, hresponse⟩
    rw [hrun]
    exact ⟨_, rfl, hsafe.reads, forall_mem_cons.mpr ⟨hallowed, hsafe.writes⟩,
      fun _ => hresponse⟩
  · rw [if_pos herr]
    exact ⟨_, rfl, one_write_safe.mpr ⟨fun _ hr => absurd hr not_mem_nil, hallowed, hresponse⟩⟩

/-- What is not written stays, for a query. -/
theorem unicastAnswers_frame {i j : ℕ} (h : unicastAnswers cfg msg st fuel pos i = some run)
    (hj : ∀ w ∈ run.writes, w.index ≠ j) : run.names[j]? = st.names[j]? := by
  rw [unicastAnswers] at h
  by_cases herr : msg.mem 3 &&& 0x0F = 0
  · rw [if_neg (not_not.mpr herr)] at h
    obtain ⟨rest, hrest, rfl⟩ := map_eq_some_iff.mp h
    obtain ⟨hfirst, hmore⟩ := forall_mem_cons.mp hj
    have hrestSame := (answers_frame hrest hmore).trans
      (List.getElem?_modify_ne (fun e => e.failed cfg msg.mem) st.names hfirst)
    dsimp only
    split_ifs
    · exact (List.getElem?_modify_ne _ _ hfirst).trans hrestSame
    · exact hrestSame
  · rw [if_pos herr] at h
    obtain rfl := Option.some.inj h
    exact List.getElem?_modify_ne _ _ (hj _ mem_cons_self)

/-- The part behind the questions that is processed as it should be fits. -/
theorem newdataAnswersFit_of_run (h : newdataAnswers cfg msg st fuel pos = some run)
    (hsafe : run.Safe cfg msg.mem msg.len st.names.length) : NewdataAnswersFit cfg msg st pos := by
  intro hanswers
  rw [newdataAnswers] at h
  rw [if_neg hanswers] at h
  by_cases hmulticast : msg.mdnsPort = true ∧ word msg.mem 0 = 0
  · rw [if_pos hmulticast] at h ⊢
    obtain ⟨rest, hrest, rfl⟩ := map_eq_some_iff.mp h
    exact answersFit_of_answers rfl hrest (NewdataRun.after_safe.mp hsafe).2.2.2
  · rw [if_neg hmulticast] at h ⊢
    cases hasked : asked msg.mem st.names with
    | none => exact fun hne => absurd rfl hne
    | some i =>
      rw [hasked] at h
      obtain ⟨rest, hrest, rfl⟩ := map_eq_some_iff.mp h
      exact fun _ => unicastFit_of_answers hrest (NewdataRun.after_safe.mp hsafe).2.2.2

/-- The part behind the questions that fits is processed as it should be. -/
theorem NewdataAnswersFit.processed (h : NewdataAnswersFit cfg msg st pos) (hfuel : msg.len ≤ fuel)
    (hlen : 8 ≤ msg.len) :
    ∃ run, newdataAnswers cfg msg st fuel pos = some run ∧
      run.Safe cfg msg.mem msg.len st.names.length := by
  have hid : ∀ r ∈ readsAt 0 2, r < msg.len := (readsAt_inside (by decide)).mpr (by omega)
  rw [newdataAnswers]
  by_cases hanswers : msg.mem 7 = 0
  · rw [if_pos hanswers]
    exact ⟨_, rfl, nothing_safe st.names⟩
  · rw [if_neg hanswers]
    have hfit := h hanswers
    by_cases hmulticast : msg.mdnsPort = true ∧ word msg.mem 0 = 0
    · rw [if_pos hmulticast] at hfit ⊢
      obtain ⟨run, hrun, hsafe⟩ : ∃ run, answers cfg msg.mem none fuel (msg.mem 7).toNat pos
          st.hostname st.names = some run ∧ run.Safe cfg msg.mem msg.len st.names.length :=
        AnswersFit.answers rfl hfuel
          (fun j entry heq => absurd heq.symm (some_ne_none _)) hfit
      rw [hrun]
      exact ⟨_, rfl, NewdataRun.after_safe.mpr ⟨hid, fun w hw => absurd hw not_mem_nil,
        fun hne => absurd rfl hne, hsafe⟩⟩
    · rw [if_neg hmulticast] at hfit ⊢
      cases hasked : asked msg.mem st.names with
      | none => exact ⟨_, rfl, (reads_safe st.names).mpr hid⟩
      | some i =>
        rw [hasked] at hfit
        obtain ⟨hresponse, hanswersFit⟩ := hfit (some_ne_none i)
        obtain ⟨run, hrun, hsafe⟩ := unicastAnswers_of_fit hasked hfuel hresponse hanswersFit
        dsimp only
        rw [hrun]
        exact ⟨_, rfl, NewdataRun.after_safe.mpr ⟨hid, fun w hw => absurd hw not_mem_nil,
          fun hne => absurd rfl hne, hsafe⟩⟩

theorem newdataAnswers_frame {j : ℕ} (h : newdataAnswers cfg msg st fuel pos = some run)
    (hj : ∀ w ∈ run.writes, w.index ≠ j) : run.names[j]? = st.names[j]? := by
  rw [newdataAnswers] at h
  by_cases hanswers : msg.mem 7 = 0
  · rw [if_pos hanswers] at h
    obtain rfl := Option.some.inj h
    rfl
  · rw [if_neg hanswers] at h
    by_cases hmulticast : msg.mdnsPort = true ∧ word msg.mem 0 = 0
    · rw [if_pos hmulticast] at h
      obtain ⟨rest, hrest, rfl⟩ := map_eq_some_iff.mp h
      have hsame : rest.names[j]? = st.names[j]? := answers_frame hrest fun w hw => hj w hw
      exact hsame
    · rw [if_neg hmulticast] at h
      cases hasked : asked msg.mem st.names with
      | none =>
        rw [hasked] at h
        obtain rfl := Option.some.inj h
        rfl
      | some i =>
        rw [hasked] at h
        obtain ⟨rest, hrest, rfl⟩ := map_eq_some_iff.mp h
        have hsame : rest.names[j]? = st.names[j]? :=
          unicastAnswers_frame hrest fun w hw => hj w hw
        exact hsame

end

/-- **Messages that arrive.** For every payload of every length and every table, a message is
processed inside the payload and the table, and changes entries only as the response for them, if
and only if its names and records fit. -/
theorem dns_newdata_safety (cfg : ResolvConfig) (msg : DnsMsg) (st : Resolver) :
    NewdataSafe cfg msg st ↔ NewdataFits cfg msg st := by
  have hheader : (∀ r ∈ headerReads, r < msg.len) ↔ 8 ≤ msg.len := readsAt_inside (by decide)
  constructor
  · rintro ⟨fuel, run, hrun, hsafe, -⟩
    rw [newdata] at hrun
    by_cases hempty : isRequest msg.mem = true ∧ msg.mem 5 = 0
    · rw [if_pos hempty] at hrun
      obtain rfl := Option.some.inj hrun
      exact ⟨hheader.mp hsafe.reads, fun h => absurd hempty h⟩
    · rw [if_neg hempty] at hrun
      cases hquestions : questions cfg msg.mem st.hostname fuel (msg.mem 5).toNat 12 with
      | none =>
        rw [hquestions] at hrun
        exact absurd hrun.symm (Option.some_ne_none run)
      | some found =>
        obtain ⟨stop, reads⟩ := found
        rw [hquestions] at hrun
        cases stop with
        | none =>
          obtain rfl := Option.some.inj hrun
          obtain ⟨hin, hreads⟩ := List.forall_mem_append.mp hsafe.reads
          exact ⟨hheader.mp hin, fun _ => ⟨none, questionsFit_of_questions hquestions hreads,
            fun pos hpos => absurd hpos.symm (Option.some_ne_none pos)⟩⟩
        | some pos =>
          obtain ⟨rest, hrest, rfl⟩ := Option.map_eq_some_iff.mp hrun
          obtain ⟨hreads, -, -, hrestSafe⟩ := NewdataRun.after_safe.mp hsafe
          obtain ⟨hin, hreads⟩ := List.forall_mem_append.mp hreads
          refine ⟨hheader.mp hin, fun _ => ⟨some pos, questionsFit_of_questions hquestions hreads,
            fun pos' hpos => ?_⟩⟩
          obtain rfl := Option.some.inj hpos
          exact newdataAnswersFit_of_run hrest hrestSafe
  · rintro ⟨hlen, hfits⟩
    refine ⟨msg.len, ?_⟩
    rw [newdata]
    by_cases hempty : isRequest msg.mem = true ∧ msg.mem 5 = 0
    · rw [if_pos hempty]
      exact ⟨_, rfl, (reads_safe st.names).mpr (hheader.mpr hlen), fun _ _ => rfl⟩
    · rw [if_neg hempty]
      obtain ⟨stop, hquestions, hanswers⟩ := hfits hempty
      obtain ⟨reads, hrun, hreads⟩ := hquestions.questions (Nat.le_refl _)
      have hall := List.forall_mem_append.mpr ⟨hheader.mpr hlen, hreads⟩
      rw [hrun]
      cases stop with
      | none => exact ⟨_, rfl, (reads_safe st.names).mpr hall, fun _ _ => rfl⟩
      | some pos =>
        obtain ⟨run, hrest, hsafe⟩ := (hanswers pos rfl).processed (Nat.le_refl _) hlen
        dsimp only
        rw [hrest]
        refine ⟨_, rfl, NewdataRun.after_safe.mpr ⟨hall, fun w hw => absurd hw List.not_mem_nil,
          fun hne => absurd rfl hne, hsafe⟩, fun j hj => ?_⟩
        have hsame : run.names[j]? = st.names[j]? :=
          newdataAnswers_frame hrest fun w hw => hj w hw
        exact hsame

/-! ## A table without room -/

/-- A multicast answer with an address for the name `a`. -/
def answerForA : DnsMsg where
  mem := fun i => [0, 0, 0x84, 0, 0, 0, 0, 1, 0, 0, 0, 0, 1, 97, 0, 0, 28, 0, 1, 0, 0, 0, 120, 0, 16,
    0xFE, 0x80, 0, 0, 0, 0, 0, 0, 0, 0, 0, 0, 0, 0, 0, 1].getD i 0
  len := 41
  mdnsPort := true

/-- A table with one entry, which asks for the name `b`. -/
def asksForB : Resolver where
  names := [⟨.asking, 7, 0, 0, bytesAt (fun _ => 0) 0 16, 0, 0, [98]⟩]
  hostname := [99]

/-- A resolver without name servers. -/
def bareConfig : ResolvConfig where
  maxName := 32
  longValues := 4294967296
  nameserver := fun _ => false
  clockSeconds := 0
  ready := true
  renamed := id

/-- **A table without room.** The name of an answer is written behind the table. -/
theorem dns_write_behind_table : ¬ NewdataSafe bareConfig answerForA asksForB := by
  rintro ⟨fuel, run, hrun, hsafe, -⟩
  cases fuel with
  | zero => exact absurd hrun.symm (Option.some_ne_none run)
  | succ fuel =>
    obtain ⟨run', hrun', w, hw, hindex⟩ : ∃ run, newdata bareConfig answerForA asksForB (fuel + 1) =
        some run ∧ ∃ w ∈ run.writes, w.index = 1 := ⟨_, rfl, _, List.mem_cons_self, rfl⟩
    obtain rfl := Option.some.inj (hrun'.symm.trans hrun)
    have hlt := (hsafe.writes w hw).index
    rw [hindex] at hlt
    exact absurd hlt (by decide)

end Asap.Resolv
