import Switchboard.Gateway.Chat

namespace Switchboard.Proofs.Outline
open Text Gateway
open Effect (Monitor Prog)

/-- What is done around the routing of a request, whatever becomes of it. -/
@[simp] def Clerical : Op → Prop
  | .now => True
  | .randomID _ => True
  | .readBody => True
  | .currentPolicy => True
  | .syncState => True
  | .setHeader name _ => name ∈ ["X-Request-ID", "traceparent", "Retry-After"]
  | .ask .draining | .ask .policyExpired | .ask .rateAllow | .ask .acquireSlot => True
  | .tell (.count .requests _) | .tell (.count .active _) | .tell (.count .rejected _) => True
  | .tell .releaseSlot => True
  | _ => False

/-- What is done when the handler gives back what it holds. -/
@[simp] def Leaving : Op → Prop
  | .tell (.count .active _) | .tell .releaseSlot => True
  | _ => False

/-- What is done once a request has been handled. -/
@[simp] def Finishing : Op → Prop
  | .now => True
  | .tell (.count .errors _) | .tell (.observeRoute _ _ _ _ _) => True
  | .tell (.emit _) | .tell (.capture _) => True
  | _ => False

theorem clerical_of_leaving (o : Op) (h : Leaving o) : Clerical o := by
  cases o with
  | tell o =>
    cases o with
    | count m n => cases m <;> trivial
    | releaseSlot => trivial
    | _ => cases h
  | _ => cases h

theorem does_tellIf {P : Op → Prop} {b : Bool} {o : Tell} (ho : P (.tell o)) :
    (tellIf b o).Does P (fun _ => True) := by
  unfold tellIf
  split
  · exact Prog.does_op ho
  · exact Prog.does_ret trivial

section
variable {srv : Server} {r : Request} {id : String} {start : Int} {event : Event}

theorem does_notReady : (notReady srv).Does Clerical (fun _ => True) := by
  refine Prog.does_call trivial (fun draining => ?_)
  split
  · exact Prog.does_ret trivial
  · refine Prog.does_call trivial (fun policy => ?_)
    split
    · split <;> exact Prog.does_ret trivial
    · refine Prog.does_call trivial (fun expired => ?_)
      split
      · exact Prog.does_ret trivial
      · refine Prog.does_call trivial (fun reason => ?_)
        split
        · exact Prog.does_ret trivial
        · split <;> exact Prog.does_ret trivial

theorem does_traceIDs {h : String} : (traceIDs h).Does Clerical (fun _ => True) := by
  unfold traceIDs
  split
  · split
    · exact Prog.does_ret trivial
    · exact Prog.does_call trivial (fun _ => Prog.does_ret trivial)
  · exact Prog.does_call trivial (fun _ => Prog.does_ret trivial)

theorem does_epilogue {ended : Ended} :
    (epilogue srv start ended).Does Finishing (fun event => ∃ t, event = { ended.event with finish := t }) := by
  have hmeasure : ∀ event : Event, (Gateway.measure start event).Does Finishing (fun _ => True) := by
    intro event
    unfold Gateway.measure
    split
    · exact Prog.does_call trivial (fun _ => Prog.does_op trivial)
    · exact Prog.does_ret trivial
  have hrecord : ∀ event : Event, (record srv ended event).Does Finishing (fun _ => True) := by
    intro event
    unfold record
    split
    · exact Prog.does_call trivial (fun _ => Prog.does_op trivial)
    · exact Prog.does_ret trivial
  refine Prog.does_call trivial (fun t => ?_)
  apply Prog.does_seq (hmeasure _)
  intro _
  refine Prog.does_seq (does_tellIf trivial) (fun _ => ?_)
  refine Prog.does_seq (does_tellIf trivial) (fun _ => ?_)
  apply Prog.does_seq (hrecord _)
  intro _
  exact Prog.does_ret ⟨t, rfl⟩

theorem unsigned_sent {lib : Lib} {c : Chat} {route : Route} {pc : ProviderConfig} {u : Upstream}
    (h : unsigned lib c route pc = some u) : u.route = route ∧ u.sent = c := by
  unfold unsigned at h
  split at h
  · cases h
  · dsimp only at h
    split at h
    · cases h
    · cases h
      exact ⟨rfl, rfl⟩

section
variable {P : Op → Prop} {k : Inference} {route : Route} {c : Chat} {pc : ProviderConfig}

/-- A request for a provider is made for this route and this chat. -/
theorem does_upstream (hsign : ∀ u, P (.sign u)) : (upstream srv c route pc).Does P
    (fun o => ∀ u, o = some u → u.route = route ∧ u.sent = c) := by
  unfold upstream
  split
  · exact Prog.does_ret (fun u hu => nomatch hu)
  · rename_i u hu
    have hsent := unsigned_sent hu
    split
    · split
      · refine Prog.does_call (hsign u) (fun hs => ?_)
        cases hs with
        | none => exact Prog.does_ret (fun u hu => nomatch hu)
        | some hs =>
          apply Prog.does_ret
          intro v hv
          cases hv
          exact hsent
      · exact Prog.does_ret (fun u hu => nomatch hu)
    · apply Prog.does_ret
      intro v hv
      cases hv
      exact hsent

theorem does_dropTemperature (hask : ∀ b, P (.ask (.temperatureOmitted b)))
    (htell : P (.tell (.count .temperatureDropped 1))) : (dropTemperature k route).Does P
    (fun sent => ∃ t, sent = { k.chat with temperature := t }) := by
  have hsame : ∃ t, k.chat = { k.chat with temperature := t } := ⟨k.chat.temperature, rfl⟩
  unfold dropTemperature
  split
  · refine Prog.does_call (hask _) (fun omitted => ?_)
    split
    · exact Prog.does_call htell (fun _ => Prog.does_ret ⟨none, rfl⟩)
    · exact Prog.does_ret hsame
  · exact Prog.does_ret hsame

/-- What is done to the chat before a provider gets it. -/
@[simp] def Preparing : Op → Prop
  | .ask (.temperatureOmitted _) | .ask (.worthCaching _) => True
  | .tell (.count .temperatureDropped _) | .tell (.count .promptCacheMarked _) => True
  | .setHeader name _ => name = "X-Switchboard-Prompt-Cache"
  | _ => False

theorem does_prepare : (prepare k route).Does Preparing (fun sent => sent.stream = k.chat.stream) := by
  apply Prog.does_bind (does_dropTemperature (fun _ => trivial) trivial)
  rintro sent ⟨t, rfl⟩
  unfold markCached
  split
  · refine Prog.does_call trivial (fun worth => ?_)
    split
    · exact Prog.does_call trivial (fun _ => Prog.does_call rfl (fun _ => Prog.does_ret rfl))
    · exact Prog.does_ret rfl
  · exact Prog.does_ret rfl

theorem does_prepass (routes : List Route) (hallow : ∀ r ∈ routes, P (.wouldAllow r.provider))
    (hskip : ∀ b n, P (.ask (.budgetSkip b n))) (hfleet : ∀ p, P (.ask (.fleetUnhealthy p))) :
    (prepass k routes).Does P (fun _ => True) := by
  induction routes with
  | nil => exact Prog.does_ret trivial
  | cons route routes ih =>
    obtain ⟨hfirst, hothers⟩ := List.forall_mem_cons.mp hallow
    have hroutable : (routable k.srv route k.chat.stream).Does P (fun _ => True) := by
      unfold routable
      split
      · exact Prog.does_ret trivial
      · split
        · exact Prog.does_ret trivial
        · exact Prog.does_op hfirst
    have hrest : ∀ skip : Bool, (do
        let rest ← prepass k routes
        pure (skip :: rest.1, rest.2 + 1) : M (List Bool × Nat)).Does P (fun _ => True) :=
      fun skip => Prog.does_seq (ih hothers) (fun _ => Prog.does_ret trivial)
    apply Prog.does_seq hroutable
    intro able
    split
    · refine Prog.does_call (hskip _ _) (fun skip => ?_)
      dsimp only
      split
      · exact hrest true
      · exact Prog.does_call (hfleet _) (fun skip => hrest skip)
    · exact Prog.does_seq (ih hothers) (fun _ => Prog.does_ret trivial)

end

/-- The statuses with which a request is turned away before its key is looked at. -/
def refusals : List Int := [400, 401, 413, 429, 503]

/-- What is true of a program that turns the request away, and stays true of one with such
operations before or after it. -/
structure Serves (event : Event) (Φ : M Ended → Prop) : Prop where
  call : ∀ {o : Op} {f : Ans o → M Ended}, Clerical o → (∀ x, Φ (f x)) → Φ (Prog.call o >>= f)
  fail : ∀ {status : Int} {msg : String}, status ∈ refusals → Φ (fail event false status msg)
  close : ∀ {p : M Ended} {f : Ended → M Ended}, Φ p →
    (∀ e, (f e).Does Leaving (fun e' => e'.event = e.event)) → Φ (p >>= f)

variable {Φ : M Ended → Prop}

theorem Serves.receive (h : Serves event Φ) (hclaim : ∀ b c, parseChat srv.lib b = .ok c →
      Φ (claim ⟨srv, r.idempotencyKey, id, start, b, c⟩ event)) :
    Φ (receive srv r id start event) := by
  refine h.call trivial (fun body => ?_)
  cases body with
  | none => exact h.fail (by simp [refusals])
  | some b =>
    dsimp only
    split
    · exact h.close (h.fail (by simp [refusals])) (fun e => Prog.does_ret rfl)
    · rename_i c hc
      exact h.close (hclaim b c hc) (fun e => Prog.does_ret rfl)

/-- It is true of the handling of the request if it is where the key is claimed. -/
theorem Serves.serve (h : Serves event Φ) (hclaim : ∀ b c, parseChat srv.lib b = .ok c →
      Φ (claim ⟨srv, r.idempotencyKey, id, start, b, c⟩ event)) :
    Φ (serve srv r id start event) := by
  have hreject : ∀ msg, Φ (reject429 event msg) := by
    intro msg
    refine h.call trivial (fun _ => ?_)
    refine h.call (by simp) (fun _ => ?_)
    exact h.fail (by simp [refusals])
  unfold Gateway.serve
  split
  · exact h.fail (by simp [refusals])
  apply Prog.Does.lift h.call does_notReady
  intro reason _
  split
  · exact h.fail (by simp [refusals])
  split
  · exact h.fail (by simp [refusals])
  refine h.call trivial (fun allowed => ?_)
  split
  · exact hreject _
  refine h.call trivial (fun acquired => ?_)
  split
  · exact hreject _
  refine h.call trivial (fun _ => ?_)
  apply h.close (h.receive hclaim)
  intro e
  exact Prog.does_call trivial (fun _ => Prog.does_call trivial (fun _ => Prog.does_ret rfl))

/-- What a monitor makes of it: `I` holds until the key is looked at, and `R` of the event once
the request has been handled. -/
theorem serves_wp {γ : Type} {G : Monitor Op Ans γ} {I : γ → Prop} {R : Event → γ → Prop}
    (hok : ∀ g o, Clerical o → G.ok g o) (hbefore : ∀ g o x, Clerical o → I g → I (G.next g o x))
    (hleave : ∀ o, Leaving o → G.Ignored o)
    (hfail : ∀ g status msg, status ∈ refusals → I g →
      G.wp (fun e => R e.event) (fail event false status msg) g) :
    Serves event (fun p => ∀ g, I g → G.wp (fun e => R e.event) p g) := by
  refine ⟨?_, fun hs g => hfail g _ _ hs, ?_⟩
  · intro o f ho hf g hg
    exact ⟨hok g o ho, fun x _ => hf x _ (hbefore g o x ho hg)⟩
  · intro p f hp hf g hg
    refine Monitor.wp_seq (hp g hg) (fun e g' hr => ?_)
    refine ((hf e).relax hleave).wp_ignored (fun e' he => ?_)
    rw [he]
    exact hr

/-- The same for the whole handler. -/
theorem chat_of_serve {Ψ : M Event → Prop}
    (hcall : ∀ {o : Op} {f : Ans o → M Event}, Clerical o → (∀ x, Ψ (f x)) → Ψ (Prog.call o >>= f))
    (hserve : ∀ id eventID trace span parent start, Ψ (serve srv r id start
      { id := eventID, requestID := id, traceID := trace, spanID := span, parentID := parent,
        start := start, status := 500 } >>= epilogue srv start)) : Ψ (chat srv r) := by
  refine hcall trivial (fun start => hcall trivial (fun id => ?_))
  apply Prog.Does.lift hcall does_traceIDs
  rintro ⟨trace, parent⟩ _
  refine hcall trivial (fun eventID => hcall trivial (fun span => ?_))
  refine hcall (by simp) (fun _ => hcall (by simp) (fun _ => hcall trivial (fun _ => ?_)))
  exact hserve id eventID trace span parent start

end

end Switchboard.Proofs.Outline
