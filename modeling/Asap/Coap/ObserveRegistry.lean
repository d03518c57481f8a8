import Asap.Coap.Observe
import Asap.Lib.Run

/-!
# What the observer list keeps

The paths that were registered are recorded beside the list, which has only what fits into an
entry, and so is the value of the observe option that each observer was sent last. A removal
takes the first entry that it looks for. That is the entry it should take if the first one is and
there is no other; a notification reaches everyone as long as no handler breaks the loop.

## Main definitions

* `Observed` — the list with what was registered and sent.
* `Fits` — the events that the list handles as it should.
* `StepOk` — what a registration, a removal and a notification should do.
-/

namespace Asap.Coap

open Lib List

variable {E : Type} {cfg : ObserveConfig} {s s' : Registry E} {o o' : ℕ}

/-! ## Removal -/

theorem removeLoop_find (hit : Observer E → Bool) (l : List ℕ) :
    removeLoop hit l s = (l.find? fun o => hit (s.cells o)).elim s (coapRemoveObserver s) := by
  induction l with
  | nil => rfl
  | cons o l ih =>
    cases h : hit (s.cells o) with
    | true => simp [removeLoop, h]
    | false => simp [removeLoop, h, ih]

theorem erase_of_find {p : ℕ → Bool} {l : List ℕ} (h : l.find? p = some o) :
    l.erase o = l.eraseP p := by
  induction l with
  | nil => simp at h
  | cons a l ih =>
    cases ha : p a with
    | true =>
      rw [List.find?_cons_of_pos ha] at h
      cases h
      simp [ha]
    | false =>
      rw [List.find?_cons_of_neg (by simp [ha])] at h
      have hne : a ≠ o := by
        rintro rfl
        rw [List.find?_some h] at ha
        exact Bool.noConfusion ha
      rw [erase_cons_tail (by simpa using hne), ih h, eraseP_cons_of_neg (by simp [ha])]

/-- **A removal takes the first entry that it looks for.** -/
theorem removeLoop_eq (hit : Observer E → Bool) (s : Registry E) :
    removeLoop hit s.list s = { s with list := s.list.eraseP fun o => hit (s.cells o) } := by
  rw [removeLoop_find]
  cases h : s.list.find? fun o => hit (s.cells o) with
  | none =>
    rw [eraseP_of_forall_not (by simpa using h)]
    rfl
  | some o =>
    rw [← erase_of_find h]
    rfl

/-- The first entry that is looked for is one that is meant, and no other one is. -/
def FirstIsOnly (hit key : ℕ → Bool) (l : List ℕ) : Prop :=
  (∀ o, l.find? hit = some o → key o = true) ∧ (l.filter key).length ≤ 1

/-- Then exactly those are removed that are meant. -/
theorem FirstIsOnly.eraseP {hit key : ℕ → Bool} {l : List ℕ} (h : FirstIsOnly hit key l)
    (hkey : ∀ o ∈ l, key o = true → hit o = true) : l.eraseP hit = l.filter fun o => !key o := by
  induction l with
  | nil => rfl
  | cons a l ih =>
    obtain ⟨hfirst, hone⟩ := h
    rw [forall_mem_cons] at hkey
    cases ha : hit a with
    | true =>
      have hmeant := hfirst a (List.find?_cons_of_pos ha)
      rw [filter_cons_of_pos hmeant, length_cons] at hone
      have hnil : l.filter key = [] := length_eq_zero_iff.mp (by omega)
      rw [eraseP_cons_of_pos ha, filter_cons_of_neg (by simp [hmeant])]
      symm
      rw [filter_eq_self]
      intro b hb
      simpa using filter_eq_nil_iff.mp hnil b hb
    | false =>
      have hnot : key a = false := by
        by_contra h
        rw [Bool.not_eq_false] at h
        rw [hkey.1 h] at ha
        exact Bool.noConfusion ha
      rw [eraseP_cons_of_neg (by simp [ha]), filter_cons_of_pos (by simp [hnot])]
      congr 1
      refine ih ⟨?_, ?_⟩ hkey.2
      · intro b hb
        exact hfirst b (by rw [List.find?_cons_of_neg (by simp [ha]), hb])
      · rwa [filter_cons_of_neg (by simp [hnot])] at hone

/-! ## Paths -/

theorem cString_prefix (bytes : List Byte) : cString bytes <+: bytes := takeWhile_prefix _

theorem bytesAt_of_prefix {p : List Byte} {mem : ℕ → Byte} {n : ℕ} (h : p <+: bytesAt mem 0 n) :
    bytesAt mem 0 p.length = p := by
  obtain ⟨rest, hrest⟩ := h
  have hlen : n = p.length + rest.length := by
    rw [← length_append, hrest, length_bytesAt]
  rw [hlen, bytesAt, range_add, map_append] at hrest
  have hleft := append_inj_left hrest (by simp)
  exact hleft.symm

theorem kept_prefix (uri : List Byte) (k : ℕ) : cString (uri.take k) <+: uri := by
  have hkept := cString_prefix (uri.take k)
  exact hkept.trans <| take_prefix k uri

theorem keptUrl_eq (uri : CStr) :
    keptUrl cfg uri = cString (uri.content.take (cfg.observerUrlLen - 1)) := by
  rw [keptUrl, CStr.content, bytesAt, bytesAt, ← map_take, take_range]

theorem content_toCStr (s : CString) : s.toCStr.content = s.chars := by
  apply ext_getElem
  · simp [CStr.content, CString.toCStr, CString.strlen]
  · intro i hi hi'
    simp [CStr.content, CString.toCStr, bytesAt, CString.memory, List.getElem?_append_left hi',
      List.getElem?_eq_getElem hi']

/-- What is kept of a path is the start of the path. -/
theorem urlHit_of_kept {obs : Observer E} {uri : CStr} {k : ℕ}
    (h : obs.url = cString (uri.content.take k)) : urlHit uri.bytes obs = true := by
  rw [urlHit, beq_iff_eq]
  apply bytesAt_of_prefix (n := uri.len)
  rw [h]
  exact kept_prefix _ _

theorem cString_append {l : List Byte} (h : 0 ∉ l) (l' : List Byte) :
    cString (l ++ l') = l ++ cString l' := by
  apply takeWhile_append_of_pos
  intro b hb
  rw [bne_iff_ne]
  rintro rfl
  exact h hb

theorem zero_notMem_path (target : Target) : 0 ∉ target.path := by
  rw [Target.path, mem_append, not_or]
  refine ⟨?_, ?_⟩
  · cases target.resource with
    | none => simp
    | some r => exact r.1.ne_zero
  · cases target.subpath with
    | none => simp
    | some sub => exact sub.ne_zero

/-- An observer of a path is one of a target, which is a resource, a path or both. -/
def IsFor (target : Target) (uri : List Byte) : Prop :=
  (target.resource.isSome ∨ target.subpath.isSome) ∧
    (uri = target.path ∨ target.subOk = true ∧ (target.path ++ [0x2F]) <+: uri)

/-- **A target concerns its observers**, also when the paths are cut. -/
theorem concerns_of_isFor {target : Target} {obs : Observer E} {uri : List Byte}
    (hurl : obs.url = cString (uri.take (cfg.observerUrlLen - 1))) (h : IsFor target uri) :
    target.concerns cfg obs = true := by
  obtain ⟨k, hk⟩ : ∃ k, cfg.observerUrlLen - 1 = k := ⟨_, rfl⟩
  have hzero : 0 ∉ target.path.take k := fun hmem => zero_notMem_path target (mem_of_mem_take hmem)
  have hwhole : cString (target.path.take k) = target.path.take k := by
    have happend := cString_append hzero []
    simpa [cString] using happend
  have hsame : obs.url = target.path.take k → target.concerns cfg obs = true := by
    intro heq
    simp [Target.concerns, Target.url, hk, heq]
  rw [hk] at hurl
  rcases h.2 with rfl | ⟨hsub, rest, rfl⟩
  · exact hsame (hurl.trans hwhole)
  · by_cases hle : k ≤ target.path.length
    · apply hsame
      rw [hurl, append_assoc, take_append_of_le_length hle, hwhole]
    · have hpath : target.path.take k = target.path := take_of_length_le (by omega)
      obtain ⟨r, hr⟩ : ∃ r, obs.url = target.path ++ 0x2F :: r := by
        obtain ⟨j, hj⟩ : ∃ j, k - target.path.length = j + 1 := ⟨k - target.path.length - 1, by omega⟩
        refine ⟨cString (rest.take j), ?_⟩
        rw [hurl, append_assoc, take_append, hpath, cString_append (zero_notMem_path target),
          hj]
        simp [cString]
      simp [Target.concerns, Target.url, hk, hpath, hr, hsub]

/-! ## The record -/

variable [DecidableEq E]

/-- The list, with the path that each block was registered for and the value of the observe option
that was last sent from it. -/
structure Observed (E : Type) where
  registry : Registry E
  uris : ℕ → List Byte
  last : ℕ → BitVec 32

/-- What happens to the list: a request is handled, an observer is cancelled, or a resource is
notified about. A token of a request has at most eight bytes. -/
inductive ObserveEvent (E : Type)
  | handle (src : Option E) (req res : CoapMessage CStr) (token : req.token.length ≤ coapTokenLen)
  | cancel (c : Cancel E)
  | notify (target : Target) (env : ℕ → Answer E)

/-- A notification is recorded. -/
def recordSent (last : ℕ → BitVec 32) (n : Notification E) : ℕ → BitVec 32 :=
  if n.message.isOption CoapOption.observe.number then
    Function.update last n.observer n.message.observe
  else last

namespace Observed

/-- A registration is recorded. -/
def register (cfg : ObserveConfig) (s : Observed E) (endpoint : E) (req res : CoapMessage CStr) :
    Observed E :=
  match addObserver cfg s.registry endpoint req.token (req.strings .uriPath) with
  | (registry, some o) =>
    { registry := registry.count o
      uris := Function.update s.uris o (req.strings .uriPath).content
      last := Function.update s.last o
        (coapSetHeaderObserve res (registry.cells o).obsCounter).observe }
  | (registry, none) => { s with registry }

/-- The list after an event. -/
def step (cfg : ObserveConfig) (s : Observed E) : ObserveEvent E → Observed E
  | .handle src req res _ =>
    match observeRequest src req res with
    | .register endpoint => s.register cfg endpoint req res
    | _ => { s with registry := (coapObserveHandler cfg src req res s.registry).2 }
  | .cancel c => { s with registry := Coap.cancel s.registry c }
  | .notify target env =>
    let st := coapNotifyObserversSub cfg target env s.registry
    { s with registry := st.registry, last := st.sent.foldl recordSent s.last }

/-- No observers, and blocks of zeros. -/
def init (endpoint : E) : Observed E where
  registry := ⟨fun _ => ⟨[], endpoint, [], 0, 0⟩, []⟩
  uris _ := []
  last _ := 0

end Observed

/-- The record follows the handler. -/
theorem registry_register (src : Option E) (req res : CoapMessage CStr) (s : Observed E) {endpoint : E}
    (h : observeRequest src req res = .register endpoint) :
    (s.register cfg endpoint req res).registry =
      (coapObserveHandler cfg src req res s.registry).2 := by
  rw [Observed.register, coapObserveHandler, h]
  cases hadd : addObserver cfg s.registry endpoint req.token (req.strings .uriPath) with
  | mk registry obs => cases obs <;> simp [hadd]

/-! ## The conditions -/

/-- The entries that a removal is for. -/
def Cancel.key (uris : ℕ → List Byte) (s : Registry E) : Cancel E → ℕ → Bool
  | .uri ep u, o => ep.all ((s.cells o).endpoint = ·) && uris o == u.chars
  | c, o => c.hit (s.cells o)

/-- A removal finds what it is for. -/
def Selects (uris : ℕ → List Byte) (s : Registry E) (c : Cancel E) : Prop :=
  FirstIsOnly (fun o => c.hit (s.cells o)) (c.key uris s) s.list

/-- The entries of an endpoint whose url is the start of a path. -/
def startsPath (s : Registry E) (endpoint : E) (uri : CStr) (o : ℕ) : Bool :=
  (s.cells o).endpoint = endpoint && urlHit uri.bytes (s.cells o)

/-- The entries of an endpoint for a path. -/
def samePath (uris : ℕ → List Byte) (s : Registry E) (endpoint : E) (uri : CStr) (o : ℕ) : Bool :=
  (s.cells o).endpoint = endpoint && uris o == uri.content

/-- All removals of a handler find what they are for. -/
def AllSelect (uris : ℕ → List Byte) : Registry E → List (Cancel E) → Prop
  | _, [] => True
  | s, c :: cs => Selects uris s c ∧ AllSelect uris (cancel s c) cs

/-- The code of the answer after the calls of a handler. -/
def codeAfter (code : Byte) : Option (List Setter) → Byte
  | none => 0x80
  | some setters => setters.foldl (fun code setter =>
      match setter with
      | .statusCode v => if v ≤ 0xFF then BitVec.ofNat 8 v else code
      | _ => code) code

/-- The list when a handler is done for an observer. -/
def answered (s : Registry E) (answer : Answer E) (mid : BitVec 16) (o : ℕ) : Registry E :=
  (answer.cancels.foldl cancel (s.modify o fun obs => { obs with lastMid := mid })).count o

/-- The handlers for the observers of a target answer them: there is a transaction for each, and
none stands behind one whose turn of a confirmable message it was, unless it is its own turn as
well; the codes are no errors; the removals find what they are for; and a handler removes its own
observer only if no other comes behind it. -/
def Answers (cfg : ObserveConfig) (target : Target) (env : ℕ → Answer E) (uris : ℕ → List Byte) :
    Bool → Byte → Registry E → List ℕ → Prop
  | _, _, _, [] => True
  | con, code, s, o :: rest =>
    if o ∈ s.list ∧ target.concerns cfg (s.cells o) then
      match (env o).mid with
      | none => False
      | some mid =>
        (con = true → refresh cfg (s.cells o) = true) ∧
          (codeAfter code (env o).handler).toNat < 128 ∧
          AllSelect uris (s.modify o fun obs => { obs with lastMid := mid }) (env o).cancels ∧
          (o ∈ (answered s (env o) mid o).list ∨ ∀ o' ∈ rest, o' ∈ (answered s (env o) mid o).list →
            ¬ target.concerns cfg ((answered s (env o) mid o).cells o')) ∧
          Answers cfg target env uris (con || refresh cfg (s.cells o))
            (codeAfter code (env o).handler) (answered s (env o) mid o) rest
    else Answers cfg target env uris con code s rest

/-- **The events that the list handles as it should.** -/
def Fits (cfg : ObserveConfig) (s : Observed E) : ObserveEvent E → Prop
  | .handle src req res _ =>
    match observeRequest src req res with
    | .register endpoint =>
      -- no other path starts with what is kept of the one that is replaced
      ∀ o, s.registry.list.find? (startsPath s.registry endpoint (req.strings .uriPath)) = some o →
        s.uris o = (req.strings .uriPath).content
    | .deregister endpoint => Selects s.uris s.registry (.token endpoint req.token)
    | .other => True
  | .cancel c => Selects s.uris s.registry c
  | .notify target env => Answers cfg target env s.uris false 0x45 s.registry s.registry.list

/-! ## What should happen -/

/-- A list has one entry for each endpoint and path. -/
def Unique (s : Observed E) : Prop :=
  ∀ o ∈ s.registry.list, ∀ o' ∈ s.registry.list,
    (s.registry.cells o).endpoint = (s.registry.cells o').endpoint → s.uris o = s.uris o' → o = o'

/-- **Registration:** the entry of the same endpoint and path, and no other, gives way to a new
one; only if there is none and no block is free, nothing changes. -/
def Registers (cfg : ObserveConfig) (s s' : Observed E) (endpoint : E) (token : List Byte)
    (uri : CStr) : Prop :=
  (∃ o, s'.registry.list =
        (s.registry.list.filter fun o' => !samePath s.uris s.registry endpoint uri o') ++ [o] ∧
      o ∉ (s.registry.list.filter fun o' => !samePath s.uris s.registry endpoint uri o') ∧
      (s'.registry.cells o).endpoint = endpoint ∧ (s'.registry.cells o).token = token ∧
      s'.uris o = uri.content ∧
      ∀ o', o' ≠ o → s'.registry.cells o' = s.registry.cells o' ∧ s'.uris o' = s.uris o') ∨
    s' = s ∧ s.registry.list.length = cfg.maxObservers ∧
      ∀ o' ∈ s.registry.list, samePath s.uris s.registry endpoint uri o' = false

/-- **Removal:** exactly the entries are removed that it is for. -/
def Removes (uris : ℕ → List Byte) (s s' : Registry E) (c : Cancel E) : Prop :=
  s' = { s with list := s.list.filter fun o => !c.key uris s o }

/-- An observer's notification has its token, the next value of the observe option after the one
that was last sent to it, and is confirmable only if that is a multiple of the interval. -/
structure Told (cfg : ObserveConfig) (s : Observed E) (o : ℕ) (n : Notification E) : Prop where
  endpoint : n.endpoint = (s.registry.cells o).endpoint
  token : n.message.token = (s.registry.cells o).token
  option : n.message.isOption CoapOption.observe.number = true
  observe : n.message.observe = (s.last o + 1) &&& 0xFFFFFF
  type : n.message.type = .con → cfg.observeRefreshInterval ≠ 0 ∧
    n.message.observe.toNat % cfg.observeRefreshInterval = 0

/-- **Notification:** each observer that is not removed meanwhile is told exactly once; and the
handlers remove what they are for. -/
structure Notifies (cfg : ObserveConfig) (target : Target) (s : Observed E) (st : Notifying E) :
    Prop where
  told : ∀ o ∈ s.registry.list, IsFor target (s.uris o) → o ∈ st.registry.list →
    ∃ n, (st.sent.filter fun n => n.observer = o) = [n] ∧ Told cfg s o n
  cancelled : ∀ x ∈ st.cancelled, Removes s.uris x.1 (cancel x.1 x.2) x.2

/-- **What should happen** at an event. -/
def StepOk (cfg : ObserveConfig) (s : Observed E) : ObserveEvent E → Prop
  | .handle src req res token =>
    match observeRequest src req res with
    | .register endpoint =>
      Registers cfg s (s.step cfg (.handle src req res token)) endpoint req.token
        (req.strings .uriPath)
    | .deregister endpoint =>
      Removes s.uris s.registry (s.step cfg (.handle src req res token)).registry
        (.token endpoint req.token)
    | .other => s.step cfg (.handle src req res token) = s
  | .cancel c => Removes s.uris s.registry (s.step cfg (.cancel c)).registry c
  | .notify target env => Notifies cfg target s (coapNotifyObserversSub cfg target env s.registry)

/-! ## Exact removals -/

/-- What the record and the list have in common. -/
structure Observed.Ok (cfg : ObserveConfig) (s : Observed E) : Prop where
  nodup : s.registry.list.Nodup
  lt : ∀ o ∈ s.registry.list, o < cfg.maxObservers
  url : ∀ o ∈ s.registry.list,
    (s.registry.cells o).url = cString ((s.uris o).take (cfg.observerUrlLen - 1))
  token : ∀ o ∈ s.registry.list, (s.registry.cells o).token.length ≤ coapTokenLen
  counter : ∀ o ∈ s.registry.list,
    (s.registry.cells o).obsCounter = (s.last o + 1) &&& 0xFFFFFF
  unique : Unique s

/-- The entries that a removal is for are among those that it looks for. -/
theorem hit_of_key {uris : ℕ → List Byte} {k : ℕ} {c : Cancel E}
    (hurl : (s.cells o).url = cString ((uris o).take k)) (h : c.key uris s o = true) :
    c.hit (s.cells o) = true := by
  cases c with
  | token ep tok => exact h
  | mid ep mid => exact h
  | client ep => exact h
  | uri ep uri =>
    simp only [Cancel.key, Cancel.hit, Bool.and_eq_true, beq_iff_eq] at h ⊢
    refine ⟨h.1, @urlHit_of_kept E _ uri.toCStr k ?_⟩
    rw [hurl, h.2, content_toCStr]

/-- **A removal that finds what it is for** removes exactly that. -/
theorem removes_of_selects {uris : ℕ → List Byte} {k : ℕ} {c : Cancel E}
    (hurl : ∀ o ∈ s.list, (s.cells o).url = cString ((uris o).take k)) (h : Selects uris s c) :
    Removes uris s (cancel s c) c := by
  rw [Removes, cancel, removeLoop_eq]
  congr 1
  exact h.eraseP fun o ho => hit_of_key (hurl o ho)

end Asap.Coap
