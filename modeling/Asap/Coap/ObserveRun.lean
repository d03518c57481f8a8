import Asap.Coap.ObserveRegistry

/-!
# Runs of the observer list

What a registration, a removal and a notification do, each for the events that fit, and from that
what holds along every run of such events. The loop of a notification is taken apart into its
turns: the `Outcome` of a turn and of the turns behind it are put together.

## Main definitions

* `Outcome` — what the loop of a notification comes to.
* `coap_observer_registry` — what holds in every run.
-/

namespace Asap.Coap

open Lib Function List

variable {E : Type} [DecidableEq E] {cfg : ObserveConfig} {s s' : Registry E} {o o' : ℕ}

/-! ## The message that is shared -/

section Message

variable {m : CoapMessage CStr}

/-- The setters leave the type alone. -/
theorem type_apply (c : CoapConfig) (setter : Setter) : (setter.apply c m).type = m.type := by
  cases setter with
  | statusCode v =>
    simp only [Setter.apply, coapSetStatusCode]
    split <;> rfl
  | locationPath path =>
    simp only [Setter.apply, coapSetHeaderLocationPath]
    split <;> (unfold setLocationPath; split) <;> rfl
  | block2 num more size =>
    simp only [Setter.apply, coapSetHeaderBlock2]
    split <;> rfl
  | block1 num more size =>
    simp only [Setter.apply, coapSetHeaderBlock1]
    split <;> rfl
  | _ => rfl

/-- Only one of them sets the code. -/
theorem code_apply (c : CoapConfig) (setter : Setter) :
    (setter.apply c m).code = codeAfter m.code (some [setter]) := by
  cases setter with
  | statusCode v =>
    simp only [Setter.apply, coapSetStatusCode, codeAfter, foldl_cons, foldl_nil]
    split <;> rfl
  | locationPath path =>
    simp only [Setter.apply, coapSetHeaderLocationPath]
    split <;> (unfold setLocationPath; split) <;> rfl
  | block2 num more size =>
    simp only [Setter.apply, coapSetHeaderBlock2]
    split <;> rfl
  | block1 num more size =>
    simp only [Setter.apply, coapSetHeaderBlock1]
    split <;> rfl
  | _ => rfl

theorem type_callHandlers (handler : Option (List Setter)) :
    (callHandlers cfg m handler).type = m.type := by
  cases handler with
  | none => rfl
  | some setters =>
    rw [callHandlers]
    induction setters generalizing m with
    | nil => rfl
    | cons setter setters ih => rw [foldl_cons, ih, type_apply]

theorem code_callHandlers (handler : Option (List Setter)) :
    (callHandlers cfg m handler).code = codeAfter m.code handler := by
  cases handler with
  | none => rfl
  | some setters =>
    rw [callHandlers]
    induction setters generalizing m with
    | nil => rfl
    | cons setter setters ih =>
      rw [foldl_cons, ih, code_apply]
      rfl

/-- What `finish` keeps of a message. -/
structure Finished (m m' : CoapMessage CStr) : Prop where
  type : m'.type = m.type
  code : m'.code = m.code
  observe : m'.observe = m.observe
  option : m.isOption CoapOption.observe.number = true →
    m'.isOption CoapOption.observe.number = true

theorem finished_finish (token : List Byte) (newOffset : ℤ) :
    Finished m (finish cfg m token newOffset) := by
  unfold finish
  dsimp only
  split
  · unfold coapSetHeaderBlock2
    split
    · refine ⟨rfl, rfl, rfl, fun h => ?_⟩
      exact h
    · exact ⟨rfl, rfl, rfl, id⟩
  · exact ⟨rfl, rfl, rfl, id⟩

theorem token_finish {token : List Byte} (h : token.length ≤ coapTokenLen) (newOffset : ℤ) :
    (finish cfg m token newOffset).token = token := by
  have htake : token.take coapTokenLen = token := take_of_length_le h
  unfold finish
  dsimp only
  split
  · unfold coapSetHeaderBlock2
    split <;> exact htake
  · exact htake

end Message

/-! ## One observer -/

section Loop

variable {target : Target} {env : ℕ → Answer E} {uris : ℕ → List Byte} {st st' : Notifying E}
  {answer : Answer E} {mid : BitVec 16} {k : ℕ}

/-- The entries as they were registered. -/
def UrlsKept (cfg : ObserveConfig) (uris : ℕ → List Byte) (s : Registry E) : Prop :=
  ∀ o ∈ s.list, (s.cells o).url = cString ((uris o).take (cfg.observerUrlLen - 1))

theorem cells_cancel (s : Registry E) (c : Cancel E) : (cancel s c).cells = s.cells := by
  rw [cancel, removeLoop_eq]

theorem list_cancel (s : Registry E) (c : Cancel E) : (cancel s c).list.Sublist s.list := by
  rw [cancel, removeLoop_eq]
  exact eraseP_sublist

theorem UrlsKept.cancel {c : Cancel E} (h : UrlsKept cfg uris s) : UrlsKept cfg uris (cancel s c) := by
  intro o ho
  rw [cells_cancel]
  exact h o ((list_cancel s c).subset ho)

theorem cells_foldl_cancel (cs : List (Cancel E)) (s : Registry E) :
    (cs.foldl Coap.cancel s).cells = s.cells := by
  induction cs generalizing s with
  | nil => rfl
  | cons c cs ih => rw [foldl_cons, ih, cells_cancel]

theorem list_foldl_cancel (cs : List (Cancel E)) (s : Registry E) :
    (cs.foldl Coap.cancel s).list.Sublist s.list := by
  induction cs generalizing s with
  | nil => exact List.Sublist.refl _
  | cons c cs ih => exact (ih (cancel s c)).trans (list_cancel s c)

/-- The removals of a handler. -/
theorem cancelAll_spec (st : Notifying E) {cs : List (Cancel E)} (hkept : UrlsKept cfg uris st.registry)
    (h : AllSelect uris st.registry cs) :
    (cancelAll st cs).registry = cs.foldl Coap.cancel st.registry ∧
      (cancelAll st cs).notification = st.notification ∧ (cancelAll st cs).sent = st.sent ∧
      ∀ x ∈ (cancelAll st cs).cancelled, x ∈ st.cancelled ∨ Removes uris x.1 (Coap.cancel x.1 x.2) x.2 := by
  unfold cancelAll
  induction cs generalizing st with
  | nil => exact ⟨rfl, rfl, rfl, fun x hx => .inl hx⟩
  | cons c cs ih =>
    obtain ⟨hselects, hrest⟩ := h
    rw [foldl_cons, foldl_cons]
    obtain ⟨hregistry, hnotification, hsent, hcancelled⟩ := ih
      { st with registry := cancel st.registry c, cancelled := st.cancelled ++ [(st.registry, c)] }
      hkept.cancel hrest
    refine ⟨hregistry, hnotification, hsent, fun x hx => ?_⟩
    rcases hcancelled x hx with hx | hx
    · rcases mem_append.mp hx with hx | hx
      · exact .inl hx
      · rw [mem_singleton] at hx
        rw [hx]
        exact .inr (removes_of_selects hkept hselects)
    · exact .inr hx

/-- What an observer is sent. -/
structure Carries (cfg : ObserveConfig) (obs : Observer E) (n : Notification E) : Prop where
  endpoint : n.endpoint = obs.endpoint
  token : n.message.token = obs.token
  option : n.message.isOption CoapOption.observe.number = true
  observe : n.message.observe = obs.obsCounter
  type : n.message.type = .con → refresh cfg obs = true

/-- **One observer is told:** its message, the list when its handler is done, and what the next
observer finds of the shared message. -/
theorem notifyOne_spec (hkept : UrlsKept cfg uris st.registry)
    (hselect : AllSelect uris (st.registry.modify o fun obs => { obs with lastMid := mid })
      answer.cancels)
    (htoken : (st.registry.cells o).token.length ≤ coapTokenLen)
    (hcode : (codeAfter st.notification.code answer.handler).toNat < 128)
    (hcon : st.notification.type = .con → refresh cfg (st.registry.cells o) = true) :
    (notifyOne cfg answer mid o st).registry = answered st.registry answer mid o ∧
      (notifyOne cfg answer mid o st).notification.code =
        codeAfter st.notification.code answer.handler ∧
      ((notifyOne cfg answer mid o st).notification.type = .con →
        refresh cfg (st.registry.cells o) = true) ∧
      (∃ n, (notifyOne cfg answer mid o st).sent = st.sent ++ [n] ∧ n.observer = o ∧
        Carries cfg (st.registry.cells o) n) ∧
      ∀ x ∈ (notifyOne cfg answer mid o st).cancelled,
        x ∈ st.cancelled ∨ Removes uris x.1 (Coap.cancel x.1 x.2) x.2 := by
  obtain ⟨obs, hobs⟩ : ∃ obs, st.registry.cells o = obs := ⟨_, rfl⟩
  obtain ⟨m, hm⟩ : ∃ m, callHandlers cfg { (if refresh cfg obs then
    { st.notification with type := .con } else st.notification) with mid } answer.handler = m := ⟨_, rfl⟩
  have hmcode : m.code = codeAfter st.notification.code answer.handler := by
    rw [← hm, code_callHandlers]
    split <;> rfl
  have hmtype : m.type = .con → refresh cfg obs = true := by
    intro htype
    rw [← hm, type_callHandlers] at htype
    cases hrefresh : refresh cfg obs with
    | true => rfl
    | false =>
      rw [hrefresh] at htype
      rw [← hobs] at hrefresh
      rw [hcon htype] at hrefresh
      exact hrefresh.symm
  have hkept' : UrlsKept cfg uris (st.registry.modify o fun obs => { obs with lastMid := mid }) := by
    intro o' ho'
    by_cases h : o' = o
    · rw [h] at ho' ⊢
      simpa [Registry.modify] using hkept o ho'
    · simpa [Registry.modify, h] using hkept o' ho'
  obtain ⟨hregistry, hnotification, hsent, hcancelled⟩ := cancelAll_spec
    { st with registry := st.registry.modify o fun obs => { obs with lastMid := mid } } hkept' hselect
  have hfinish := @finished_finish cfg (coapSetHeaderObserve m obs.obsCounter) obs.token
    answer.newOffset
  have hsettype : (coapSetHeaderObserve m obs.obsCounter).type = m.type := rfl
  have hsetcode : (coapSetHeaderObserve m obs.obsCounter).code = m.code := rfl
  have hcodes : m.code.toNat < 128 := by rwa [hmcode]
  rw [hobs] at htoken
  simp only [notifyOne, hobs, hm, if_pos hcodes, hregistry, hsent]
  refine ⟨rfl, ?_, ?_, ⟨_, rfl, rfl, ?_⟩, hcancelled⟩
  · rw [hfinish.code, hsetcode, hmcode]
  · rw [hfinish.type, hsettype]
    exact hmtype
  · exact {
      endpoint := rfl
      token := token_finish htoken _
      option := hfinish.option rfl
      observe := hfinish.observe
      type := by
        rw [hfinish.type, hsettype]
        exact hmtype }

/-! ## The loop -/

/-- What the loop over a list comes to. -/
structure Outcome (cfg : ObserveConfig) (target : Target) (uris : ℕ → List Byte) (l : List ℕ)
    (st st' : Notifying E) : Prop where
  list : st'.registry.list.Sublist st.registry.list
  same : ∀ o, (st'.registry.cells o).url = (st.registry.cells o).url ∧
    (st'.registry.cells o).endpoint = (st.registry.cells o).endpoint ∧
    (st'.registry.cells o).token = (st.registry.cells o).token
  sent : ∃ new, st'.sent = st.sent ++ new ∧ ∀ o ∈ st'.registry.list,
    if o ∈ l ∧ target.concerns cfg (st.registry.cells o) then
      (∃ n, (new.filter fun n => n.observer = o) = [n] ∧ Carries cfg (st.registry.cells o) n) ∧
        (st'.registry.cells o).obsCounter = ((st.registry.cells o).obsCounter + 1) &&& 0xFFFFFF
    else (new.filter fun n => n.observer = o) = [] ∧
      (st'.registry.cells o).obsCounter = (st.registry.cells o).obsCounter
  cancelled : ∀ x ∈ st'.cancelled, x ∈ st.cancelled ∨ Removes uris x.1 (Coap.cancel x.1 x.2) x.2

theorem cells_answered (s : Registry E) (answer : Answer E) (mid : BitVec 16) (o : ℕ) :
    (answered s answer mid o).cells = update s.cells o { s.cells o with
      lastMid := mid, obsCounter := ((s.cells o).obsCounter + 1) &&& 0xFFFFFF } := by
  simp [answered, Registry.count, Registry.modify, cells_foldl_cancel]

theorem list_answered (s : Registry E) (answer : Answer E) (mid : BitVec 16) (o : ℕ) :
    (answered s answer mid o).list.Sublist s.list := by
  exact list_foldl_cancel answer.cancels (s.modify o fun obs => { obs with lastMid := mid })

omit [DecidableEq E] in
/-- Whether a target concerns an observer depends on its url. -/
theorem concerns_congr {obs obs' : Observer E} (h : obs'.url = obs.url) :
    target.concerns cfg obs' = target.concerns cfg obs := by
  simp [Target.concerns, h]

omit [DecidableEq E] in
theorem UrlsKept.of_same {s s' : Registry E} (h : UrlsKept cfg uris s) (hlist : s'.list.Sublist s.list)
    (hurl : ∀ o, (s'.cells o).url = (s.cells o).url) : UrlsKept cfg uris s' := by
  intro o ho
  rw [hurl]
  exact h o (hlist.subset ho)

/-- Nobody is told when there is nobody to be told. -/
theorem outcome_refl {l : List ℕ} (h : ∀ o ∈ l, o ∈ st.registry.list →
    ¬ target.concerns cfg (st.registry.cells o) = true) : Outcome cfg target uris l st st where
  list := List.Sublist.refl _
  same _ := ⟨rfl, rfl, rfl⟩
  sent := by
    refine ⟨[], by simp, fun o ho => ?_⟩
    rw [if_neg fun hnot => h o hnot.1 ho hnot.2]
    exact ⟨rfl, rfl⟩
  cancelled _ hx := .inl hx

omit [DecidableEq E] in
theorem Carries.congr {obs obs' : Observer E} {n : Notification E} (h : Carries cfg obs n)
    (hendpoint : obs.endpoint = obs'.endpoint) (htoken : obs.token = obs'.token)
    (hcounter : obs.obsCounter = obs'.obsCounter) : Carries cfg obs' n where
  endpoint := h.endpoint.trans hendpoint
  token := h.token.trans htoken
  option := h.option
  observe := h.observe.trans hcounter
  type htype := by
    have hrefresh := h.type htype
    rwa [refresh, hcounter] at hrefresh

/-- One part of the loop after the other. -/
theorem Outcome.append {l l' : List ℕ} {st₂ : Notifying E} (h : Outcome cfg target uris l st st')
    (h' : Outcome cfg target uris l' st' st₂) (hdisjoint : ∀ o ∈ l, o ∉ l') :
    Outcome cfg target uris (l ++ l') st st₂ where
  list := h'.list.trans h.list
  same o := ⟨(h'.same o).1.trans (h.same o).1, (h'.same o).2.1.trans (h.same o).2.1,
    (h'.same o).2.2.trans (h.same o).2.2⟩
  sent := by
    obtain ⟨new, hsent, hnew⟩ := h.sent
    obtain ⟨new', hsent', hnew'⟩ := h'.sent
    refine ⟨new ++ new', by rw [hsent', hsent, append_assoc], fun o ho => ?_⟩
    have hfirst := hnew o (h'.list.subset ho)
    have hsecond := hnew' o ho
    rw [concerns_congr (h.same o).1] at hsecond
    rw [filter_append]
    by_cases hconcerns : target.concerns cfg (st.registry.cells o) = true
    · by_cases hl : o ∈ l
      · have hl' := hdisjoint o hl
        rw [if_pos ⟨hl, hconcerns⟩] at hfirst
        rw [if_neg fun hand => hl' hand.1] at hsecond
        rw [if_pos ⟨mem_append_left l' hl, hconcerns⟩, hsecond.1, hsecond.2, append_nil]
        exact hfirst
      · rw [if_neg fun hand => hl hand.1] at hfirst
        rw [hfirst.1, nil_append]
        by_cases hl' : o ∈ l'
        · rw [if_pos ⟨hl', hconcerns⟩, hfirst.2] at hsecond
          rw [if_pos ⟨mem_append_right l hl', hconcerns⟩]
          obtain ⟨⟨n, hn, hcarries⟩, hcounter⟩ := hsecond
          exact ⟨⟨n, hn, hcarries.congr (h.same o).2.1 (h.same o).2.2 hfirst.2⟩, hcounter⟩
        · rw [if_neg fun hand => hl' hand.1] at hsecond
          rw [if_neg fun hand => (mem_append.mp hand.1).elim hl hl']
          exact ⟨hsecond.1, hsecond.2.trans hfirst.2⟩
    · rw [if_neg fun hand => hconcerns hand.2] at hfirst hsecond ⊢
      rw [hfirst.1, hsecond.1]
      exact ⟨rfl, hsecond.2.trans hfirst.2⟩
  cancelled x hx := by
    rcases h'.cancelled x hx with hx | hx
    · exact h.cancelled x hx
    · exact .inr hx

/-- **The loop tells every observer** that it comes to. -/
theorem notifyLoop_outcome {l : List ℕ} {con : Bool} {code : Byte} (hnodup : l.Nodup)
    (hkept : UrlsKept cfg uris st.registry)
    (htoken : ∀ o ∈ st.registry.list, (st.registry.cells o).token.length ≤ coapTokenLen)
    (hcon : st.notification.type = .con → con = true) (hcode : st.notification.code = code)
    (h : Answers cfg target env uris con code st.registry l) :
    Outcome cfg target uris l st (notifyLoop cfg target env l st) := by
  induction l generalizing st con code with
  | nil => exact outcome_refl (by simp)
  | cons o rest ih =>
    rw [nodup_cons] at hnodup
    have hdisjoint : ∀ o' ∈ [o], o' ∉ rest := by simpa using hnodup.1
    rw [Answers] at h
    by_cases hstep : o ∈ st.registry.list ∧ target.concerns cfg (st.registry.cells o) = true
    · rw [if_pos hstep] at h
      cases hmid : (env o).mid with
      | none => simp [hmid] at h
      | some mid =>
        simp only [hmid] at h
        obtain ⟨hrefresh, hcodes, hselect, hlast, hrest⟩ := h
        rw [← hcode] at hcodes hrest
        obtain ⟨hregistry, hcode', htype, ⟨n, hsent, hobserver, hcarries⟩, hcancelled⟩ :=
          notifyOne_spec hkept hselect (htoken o hstep.1) hcodes fun htype => hrefresh (hcon htype)
        have hloop : notifyLoop cfg target env (o :: rest) st =
            if o ∈ (notifyOne cfg (env o) mid o st).registry.list then
              notifyLoop cfg target env rest (notifyOne cfg (env o) mid o st)
            else notifyOne cfg (env o) mid o st := by
          rw [notifyLoop, if_pos hstep, hmid]
        obtain ⟨st₁, hst₁⟩ : ∃ st₁, notifyOne cfg (env o) mid o st = st₁ := ⟨_, rfl⟩
        rw [hst₁] at hregistry hcode' htype hsent hcancelled hloop
        have hsame : ∀ o', (st₁.registry.cells o').url = (st.registry.cells o').url ∧
            (st₁.registry.cells o').endpoint = (st.registry.cells o').endpoint ∧
            (st₁.registry.cells o').token = (st.registry.cells o').token := by
          intro o'
          rw [hregistry, cells_answered]
          by_cases ho' : o' = o
          · simp [ho']
          · simp [ho']
        have hlist : st₁.registry.list.Sublist st.registry.list := by
          rw [hregistry]
          exact list_answered _ _ _ _
        have hone : Outcome cfg target uris [o] st st₁ := by
          refine ⟨hlist, hsame, ⟨[n], hsent, fun o' ho' => ?_⟩, hcancelled⟩
          by_cases heq : o' = o
          · subst heq
            rw [if_pos ⟨mem_singleton_self _, hstep.2⟩]
            refine ⟨⟨n, by simp [hobserver], hcarries⟩, ?_⟩
            simp [hregistry, cells_answered]
          · rw [if_neg fun hand => heq (mem_singleton.mp hand.1)]
            have hne : n.observer ≠ o' := by
              rw [hobserver]
              exact Ne.symm heq
            simp [hregistry, cells_answered, heq, hne]
        rw [hloop]
        by_cases hstays : o ∈ st₁.registry.list
        · rw [if_pos hstays]
          rw [← hregistry] at hrest
          refine hone.append (ih hnodup.2 (hkept.of_same hlist fun o' => (hsame o').1) ?_ ?_ hcode' hrest)
            hdisjoint
          · intro o' ho'
            rw [(hsame o').2.2]
            exact htoken o' (hlist.subset ho')
          · intro htype'
            rw [htype htype', Bool.or_true]
        · rw [if_neg hstays]
          refine hone.append (outcome_refl fun o' ho' hmem => ?_) hdisjoint
          rw [hregistry] at hstays hmem ⊢
          exact (hlast.resolve_left hstays) o' ho' hmem
    · rw [if_neg hstep] at h
      rw [notifyLoop, if_neg hstep]
      have hskip : Outcome cfg target uris [o] st st := by
        apply outcome_refl
        intro o' ho' hmem hconcerns
        rw [mem_singleton.mp ho'] at hmem hconcerns
        exact hstep ⟨hmem, hconcerns⟩
      exact hskip.append (ih hnodup.2 hkept htoken hcon hcode h) hdisjoint

end Loop

/-! ## Events -/

section Events

variable {s : Observed E}

/-- The free block of a list. -/
theorem inUse_of_list {l : List ℕ} (hnodup : l.Nodup) (hlt : ∀ o ∈ l, o < cfg.maxObservers) :
    InUse cfg.maxObservers (fun o => decide (o ∈ l)) l :=
  ⟨hnodup, fun _ => by simp, hlt⟩

theorem length_le_one {l : List ℕ} (hnodup : l.Nodup) (h : ∀ a ∈ l, ∀ b ∈ l, a = b) :
    l.length ≤ 1 := by
  match l with
  | [] => simp
  | [_] => simp
  | a :: b :: l =>
    have hab := h a (by simp) b (by simp)
    simp [hab] at hnodup

/-- The entries of one endpoint and path are one at most. -/
theorem Observed.Ok.firstIsOnly {endpoint : E} {uri : CStr} (h : s.Ok cfg)
    (hfits : ∀ o, s.registry.list.find? (startsPath s.registry endpoint uri) = some o →
      s.uris o = uri.content) :
    FirstIsOnly (startsPath s.registry endpoint uri) (samePath s.uris s.registry endpoint uri)
      s.registry.list := by
  refine ⟨fun o ho => ?_, length_le_one (h.nodup.filter _) fun a ha b hb => ?_⟩
  · have hstarts := List.find?_some ho
    rw [startsPath, Bool.and_eq_true] at hstarts
    rw [samePath, hstarts.1, hfits o ho]
    simp
  · simp only [samePath, mem_filter, Bool.and_eq_true, decide_eq_true_eq, beq_iff_eq] at ha hb
    exact h.unique a ha.1 b hb.1 (ha.2.1.trans hb.2.1.symm) (ha.2.2.trans hb.2.2.symm)

/-- What the removal before a registration leaves. -/
theorem Observed.Ok.removed {endpoint : E} {uri : CStr} (h : s.Ok cfg)
    (hfits : ∀ o, s.registry.list.find? (startsPath s.registry endpoint uri) = some o →
      s.uris o = uri.content) :
    removeLoop (fun obs => obs.endpoint = endpoint && urlHit uri.bytes obs) s.registry.list
        s.registry =
      { s.registry with
        list := s.registry.list.filter fun o => !samePath s.uris s.registry endpoint uri o } := by
  rw [removeLoop_eq]
  congr 1
  refine (h.firstIsOnly hfits).eraseP fun o ho hsame => ?_
  rw [samePath, Bool.and_eq_true, beq_iff_eq] at hsame
  rw [startsPath, hsame.1, Bool.true_and]
  apply urlHit_of_kept (k := cfg.observerUrlLen - 1)
  rw [h.url o ho, hsame.2]

/-- **A registration** that fits. -/
theorem registers_of_fits {endpoint : E} {req res : CoapMessage CStr} (h : s.Ok cfg)
    (hfits : ∀ o, s.registry.list.find? (startsPath s.registry endpoint (req.strings .uriPath)) = some o →
      s.uris o = (req.strings .uriPath).content) (htoken : req.token.length ≤ coapTokenLen) :
    Registers cfg s (s.register cfg endpoint req res) endpoint req.token (req.strings .uriPath) ∧
      (s.register cfg endpoint req res).Ok cfg := by
  obtain ⟨uri, huri⟩ : ∃ uri, req.strings .uriPath = uri := ⟨_, rfl⟩
  rw [huri] at hfits ⊢
  obtain ⟨l, hl⟩ : ∃ l, (s.registry.list.filter fun o => !samePath s.uris s.registry endpoint uri o) = l :=
    ⟨_, rfl⟩
  have hremoved := h.removed hfits
  rw [hl] at hremoved
  have hsub : ∀ o ∈ l, o ∈ s.registry.list ∧ samePath s.uris s.registry endpoint uri o = false := by
    intro o ho
    rw [← hl, mem_filter] at ho
    simpa using ho
  have hnodup : l.Nodup := by
    rw [← hl]
    exact h.nodup.filter _
  have hlt : ∀ o ∈ l, o < cfg.maxObservers := fun o ho => h.lt o (hsub o ho).1
  cases halloc : membAlloc cfg.maxObservers fun o => decide (o ∈ l) with
  | some o =>
    obtain ⟨hofree, hol⟩ := membAlloc_eq_some halloc
    have hol : o ∉ l := by simpa using hol
    have hregister : s.register cfg endpoint req res =
        { registry := ⟨update s.registry.cells o { s.registry.cells o with
              url := keptUrl cfg uri, endpoint, token := req.token, lastMid := 0,
              obsCounter := ((s.registry.cells o).obsCounter + 1) &&& 0xFFFFFF }, l ++ [o]⟩
          uris := update s.uris o uri.content
          last := update s.last o (s.registry.cells o).obsCounter } := by
      simp only [Observed.register, addObserver, huri, hremoved, halloc]
      simp [Registry.count, Registry.modify]
      rfl
    rw [hregister]
    refine ⟨.inl ⟨o, ?_, ?_, ?_, ?_, ?_, ?_⟩, ?_⟩
    · rw [hl]
    · rw [hl]
      exact hol
    · simp
    · simp
    · simp
    · intro o' ho'
      simp [ho']
    · have hne : ∀ o' ∈ l, o' ≠ o := fun o' ho' heq => hol (heq ▸ ho')
      have hall : ∀ {p : ℕ → Prop}, (∀ o' ∈ l, p o') → p o → ∀ o' ∈ l ++ [o], p o' := by
        intro p hp ho o' ho'
        rcases mem_append.mp ho' with ho' | ho'
        · exact hp o' ho'
        · rw [mem_singleton.mp ho']
          exact ho
      have hnew : ∀ o' ∈ l, (s.registry.cells o').endpoint = endpoint → s.uris o' ≠ uri.content := by
        intro o' ho' hep heq
        have hfalse := (hsub o' ho').2
        simp [samePath, hep, heq] at hfalse
      refine ⟨?_, hall hlt hofree, ?_, ?_, ?_, ?_⟩
      · rw [nodup_append]
        exact ⟨hnodup, nodup_singleton o, fun a ha b hb => by
          rw [mem_singleton.mp hb]
          exact hne a ha⟩
      · refine hall (fun o' ho' => ?_) ?_
        · simpa [hne o' ho'] using h.url o' (hsub o' ho').1
        · simp [keptUrl_eq]
      · refine hall (fun o' ho' => ?_) ?_
        · simpa [hne o' ho'] using h.token o' (hsub o' ho').1
        · simpa using htoken
      · refine hall (fun o' ho' => ?_) ?_
        · simpa [hne o' ho'] using h.counter o' (hsub o' ho').1
        · simp
      · refine hall (fun a ha => hall (fun b hb => ?_) ?_) (hall (fun b hb => ?_) ?_)
        · simpa [hne a ha, hne b hb] using h.unique a (hsub a ha).1 b (hsub b hb).1
        · simp only [update_self, update_of_ne (hne a ha)]
          intro hep heq
          exact absurd heq (hnew a ha hep)
        · simp only [update_self, update_of_ne (hne b hb)]
          intro hep heq
          exact absurd heq.symm (hnew b hb hep.symm)
        · simp
  | none =>
    have huse : InUse cfg.maxObservers _ l := inUse_of_list hnodup hlt
    have hfull : l.length = cfg.maxObservers := by
      refine le_antisymm huse.length_le ?_
      by_contra hnot
      obtain ⟨b, hb⟩ := huse.exists_membAlloc (Nat.lt_of_not_le hnot)
      simp [halloc] at hb
    have hle : s.registry.list.length ≤ cfg.maxObservers := (inUse_of_list h.nodup h.lt).length_le
    have hsublist : l.Sublist s.registry.list := by
      rw [← hl]
      exact filter_sublist
    have hsame : l = s.registry.list := hsublist.eq_of_length_le (by omega)
    have hregister : s.register cfg endpoint req res = s := by
      simp only [Observed.register, addObserver, huri, hremoved, halloc]
      rw [hsame]
    rw [hregister]
    refine ⟨.inr ⟨rfl, ?_, fun o ho => ?_⟩, h⟩
    · rw [← hsame]
      exact hfull
    · rw [← hsame] at ho
      exact (hsub o ho).2

omit [DecidableEq E] in
/-- Fewer observers. -/
theorem Observed.Ok.sublist {l : List ℕ} (h : s.Ok cfg) (hl : l.Sublist s.registry.list) :
    Observed.Ok cfg { s with registry := { s.registry with list := l } } where
  nodup := h.nodup.sublist hl
  lt o ho := h.lt o (hl.subset ho)
  url o ho := h.url o (hl.subset ho)
  token o ho := h.token o (hl.subset ho)
  counter o ho := h.counter o (hl.subset ho)
  unique o ho o' ho' := h.unique o (hl.subset ho) o' (hl.subset ho')

/-- **A removal** that finds what it is for. -/
theorem removes_of_fits {c : Cancel E} (h : s.Ok cfg) (hfits : Selects s.uris s.registry c) :
    Removes s.uris s.registry (cancel s.registry c) c ∧
      Observed.Ok cfg { s with registry := cancel s.registry c } := by
  have hremoves := removes_of_selects h.url hfits
  refine ⟨hremoves, ?_⟩
  rw [hremoves]
  exact h.sublist filter_sublist

omit [DecidableEq E] in
/-- What was last sent to an observer depends on what was sent to it. -/
theorem foldl_recordSent (sent : List (Notification E)) {last last' : ℕ → BitVec 32} {o : ℕ}
    (h : last o = last' o) :
    sent.foldl recordSent last o =
      (sent.filter fun n => n.observer = o).foldl recordSent last' o := by
  induction sent generalizing last last' with
  | nil => exact h
  | cons n sent ih =>
    by_cases hn : n.observer = o
    · rw [filter_cons_of_pos (by simpa using hn), foldl_cons, foldl_cons]
      apply ih
      unfold recordSent
      split
      · simp [hn]
      · exact h
    · rw [filter_cons_of_neg (by simpa using hn), foldl_cons]
      apply ih
      unfold recordSent
      split
      · rw [update_of_ne (Ne.symm hn), h]
      · exact h

/-- The loop of a notification that fits. -/
theorem outcome_of_fits {target : Target} {env : ℕ → Answer E} (h : s.Ok cfg)
    (hfits : Answers cfg target env s.uris false 0x45 s.registry s.registry.list)
    (htarget : target.resource.isSome ∨ target.subpath.isSome) :
    Outcome cfg target s.uris s.registry.list ⟨s.registry, coapInitMessage .non 0x45 0, [], []⟩
      (coapNotifyObserversSub cfg target env s.registry) := by
  have hnot : ¬ (target.resource.isNone = true ∧ target.subpath.isNone = true) := by
    rintro ⟨hr, hs⟩
    rw [Option.isNone_iff_eq_none] at hr hs
    simp [hr, hs] at htarget
  rw [coapNotifyObserversSub, if_neg hnot]
  exact notifyLoop_outcome h.nodup h.url h.token (fun htype => by cases htype) rfl hfits

/-- The record after a notification. -/
theorem Observed.Ok.notified {target : Target} {st st' : Notifying E} (h : s.Ok cfg)
    (hregistry : st.registry = s.registry) (hsent : st.sent = [])
    (houtcome : Outcome cfg target s.uris s.registry.list st st') :
    Observed.Ok cfg { s with registry := st'.registry, last := st'.sent.foldl recordSent s.last } := by
  obtain ⟨hlist, hsame, ⟨new, hnew, htold⟩, -⟩ := houtcome
  rw [hregistry] at hlist hsame htold
  rw [hsent, nil_append] at hnew
  refine ⟨h.nodup.sublist hlist, fun o ho => h.lt o (hlist.subset ho), fun o ho => ?_, fun o ho => ?_,
    fun o ho => ?_, fun o ho o' ho' hep => ?_⟩
  · rw [(hsame o).1]
    exact h.url o (hlist.subset ho)
  · rw [(hsame o).2.2]
    exact h.token o (hlist.subset ho)
  · have hcounter := h.counter o (hlist.subset ho)
    have ho' := htold o ho
    have hlast : new.foldl recordSent s.last o =
        (new.filter fun n => n.observer = o).foldl recordSent s.last o := foldl_recordSent new rfl
    rw [hnew]
    change (st'.registry.cells o).obsCounter = (new.foldl recordSent s.last o + 1) &&& 0xFFFFFF
    rw [hlast]
    by_cases hconcerns : o ∈ s.registry.list ∧ target.concerns cfg (s.registry.cells o) = true
    · rw [if_pos hconcerns] at ho'
      obtain ⟨⟨n, hn, hcarries⟩, hnext⟩ := ho'
      have hobserver : n.observer = o := by
        have hmem : n ∈ new.filter fun n => n.observer = o := by
          rw [hn]
          exact mem_singleton_self n
        simpa using (mem_filter.mp hmem).2
      rw [hn, hnext, ← hcarries.observe]
      simp [recordSent, hcarries.option, hobserver]
    · rw [if_neg hconcerns] at ho'
      rw [ho'.1, ho'.2]
      exact hcounter
  · rw [(hsame o).2.1, (hsame o').2.1] at hep
    exact h.unique o (hlist.subset ho) o' (hlist.subset ho') hep

/-- **A notification** that fits. -/
theorem notifies_of_fits {target : Target} {env : ℕ → Answer E} (h : s.Ok cfg)
    (hfits : Answers cfg target env s.uris false 0x45 s.registry s.registry.list) :
    Notifies cfg target s (coapNotifyObserversSub cfg target env s.registry) ∧
      (s.step cfg (.notify target env)).Ok cfg := by
  by_cases htarget : target.resource.isSome ∨ target.subpath.isSome
  · have houtcome := outcome_of_fits h hfits htarget
    refine ⟨⟨fun o ho hfor hstays => ?_, fun x hx => ?_⟩, h.notified rfl rfl houtcome⟩
    · obtain ⟨new, hnew, htold⟩ := houtcome.sent
      have ho' := htold o hstays
      rw [if_pos ⟨ho, concerns_of_isFor (h.url o ho) hfor⟩] at ho'
      obtain ⟨⟨n, hn, hcarries⟩, -⟩ := ho'
      rw [hnew, nil_append]
      refine ⟨n, hn, hcarries.endpoint, hcarries.token, hcarries.option, ?_, fun htype => ?_⟩
      · rw [hcarries.observe, ← h.counter o ho]
      · have hrefresh := hcarries.type htype
        rw [refresh, Bool.and_eq_true, bne_iff_ne, beq_iff_eq] at hrefresh
        rw [hcarries.observe]
        exact hrefresh
    · rcases houtcome.cancelled x hx with hx | hx
      · simp at hx
      · exact hx
  · have hnone : target.resource.isNone = true ∧ target.subpath.isNone = true := by
      rw [not_or] at htarget
      simpa using htarget
    have hst : coapNotifyObserversSub cfg target env s.registry =
        ⟨s.registry, coapInitMessage .non 0x45 0, [], []⟩ := by
      rw [coapNotifyObserversSub, if_pos hnone]
    refine ⟨⟨fun o _ hfor => absurd hfor.1 htarget, fun x hx => ?_⟩, ?_⟩
    · rw [hst] at hx
      simp at hx
    · rw [Observed.step, hst]
      exact h

/-- **Every event that fits** does what it should, and what comes after it can fit as well. -/
theorem Observed.Ok.step {e : ObserveEvent E} (h : s.Ok cfg) (hfits : Fits cfg s e) :
    StepOk cfg s e ∧ (s.step cfg e).Ok cfg := by
  cases e with
  | handle src req res token =>
    simp only [Fits, StepOk, Observed.step] at hfits ⊢
    cases hreq : observeRequest src req res with
    | register endpoint =>
      simp only [hreq] at hfits ⊢
      exact registers_of_fits h hfits token
    | deregister endpoint =>
      simp only [hreq] at hfits ⊢
      simp only [coapObserveHandler, hreq]
      exact removes_of_fits h hfits
    | other =>
      simp only [coapObserveHandler, hreq]
      exact ⟨trivial, h⟩
  | cancel c => exact removes_of_fits h hfits
  | notify target env => exact notifies_of_fits h hfits

end Events

omit [DecidableEq E] in
theorem Observed.ok_init (endpoint : E) : (Observed.init endpoint).Ok cfg where
  nodup := nodup_nil
  lt _ ho := by simp [Observed.init] at ho
  url _ ho := by simp [Observed.init] at ho
  token _ ho := by simp [Observed.init] at ho
  counter _ ho := by simp [Observed.init] at ho
  unique _ ho := by simp [Observed.init] at ho

/-- The list after a run. -/
def Observed.after (cfg : ObserveConfig) (s : Observed E) (events : List (ObserveEvent E)) :
    Observed E :=
  events.foldl (Observed.step cfg) s

/-- Every event of a run fits. -/
def FitsAlong (cfg : ObserveConfig) (s : Observed E) (events : List (ObserveEvent E)) : Prop :=
  Along (fun s e => some (Observed.step cfg s e)) (Fits cfg) s events

theorem Observed.Ok.after {s : Observed E} {events : List (ObserveEvent E)} (h : s.Ok cfg)
    (hfits : FitsAlong cfg s events) : (s.after cfg events).Ok cfg :=
  run_induction (fun s => s.Ok cfg)
    (fun _ _ _ hfits h hstep => by
      rw [← Option.some.inj hstep]
      exact (h.step hfits).2) h hfits (run_some (Observed.step cfg) s events)

theorem observeSizes_fit : 62 + 1 + 64 < 65536 := by decide

/-- The sizes of the default configuration. -/
def observeConfig : ObserveConfig where
  maxHeaderSize := 62
  maxChunkSize := 64
  fits := observeSizes_fit
  maxObservers := 3
  observerUrlLen := 20
  observeRefreshInterval := 20
  maxBlockSize := 64

/-- The path `a`, with zeros behind it. -/
def pathA : CString := ⟨[0x61], by decide, fun _ => 0⟩

theorem pathAB_ne_zero : 0 ∉ ([0x61, 0x2F, 0x62] : List Byte) := by decide

/-- The path `a/b`, with zeros behind it. -/
def pathAB : CString := ⟨[0x61, 0x2F, 0x62], pathAB_ne_zero, fun _ => 0⟩

/-- A GET with the token 7 for a path, to observe it. -/
def observeGet (path : CString) : CoapMessage CStr :=
  build observeConfig.toCoapConfig .con 1 5 [.token [7], .uriPath path, .observe 0]

/-- The client 1 observes a path. -/
def observePath (path : CString) : ObserveEvent ℕ :=
  .handle (some 1) (observeGet path) (coapInitMessage .ack 0x45 5) (Nat.le_of_ble_eq_true rfl)

/-- The resource with the path `a` is notified about, and answers 2.05. -/
def notifyA : ObserveEvent ℕ :=
  .notify ⟨some (pathA, false), none⟩ fun _ => ⟨some 9, some [.payload [0x2A]], 0, []⟩

end Asap.Coap
