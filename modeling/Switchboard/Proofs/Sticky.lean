import Switchboard.Proofs.Once

namespace Switchboard.Proofs.Sticky
open Text Gateway Watch Steps Entry Store Holding Ownership Once NoReplay IdemStore
open Tally (account ValidAnswer Credits follow)
open Ledger (exchanges exchangeOf)
open Effect (Monitor Prog Machine Conf)

/-- A status with which a provider ends an attempt, that is neither an answer nor the caller's
fault. -/
def TerminalStatus : Upstream × Outcome → Prop
  | (_, .failed) => False
  | (_, .response status _ _ body) => status ≠ 200 ∧
      classify status (body.bytes.take 65536) = .terminal ∧ callersFault status = false

/-- An outcome after which the provider may have accepted and generated: no response at all, an
acceptance that did not come to a valid end, or a terminal status. -/
def Ambiguous (lib : Lib) : Upstream × Outcome → Prop
  | (_, .failed) => True
  | (u, .response status retryAfter contentType body) =>
    status = 200 ∧ ¬ ValidAnswer lib u contentType body ∨
      TerminalStatus (u, .response status retryAfter contentType body)

/-- An outcome that is no acceptance, or of an answer that is complete and empty. -/
def Unaccepted (lib : Lib) : Upstream × Outcome → Prop
  | (_, .failed) => False
  | (u, .response status retryAfter contentType body) =>
    status ≠ 200 ∧ ¬ TerminalStatus (u, .response status retryAfter contentType body) ∨
      status = 200 ∧ EmptyAnswer lib u contentType body

section
variable {lib : Lib}

/-- A stream without text that states why it ends comes to a valid end. -/
theorem follow_of_assembled {provider : String} (frames : List Bytes) {reasons : List String}
    {finished : Bool} {u : TokenUsage} (h : assembled provider frames = some ("", reasons))
    (hstated : finished = true ∨ reasons ≠ []) : (follow provider finished u frames).1 = true := by
  induction frames generalizing finished u reasons with
  | nil => cases h
  | cons b frames ih =>
    by_cases hb : b = ascii "[DONE]"
    · simp only [assembled, follow, hb, if_true] at h ⊢
      split at h
      · rename_i hprovider
        cases h
        simpa [hprovider] using hstated
      · cases h
    · simp only [assembled, follow, hb, if_false] at h ⊢
      split at h
      · cases h
      rename_i herr
      simp only [herr, if_false]
      split at h
      · rename_i hdone
        obtain ⟨htext, hreasons⟩ := Prod.mk.inj (Option.some.inj h)
        simp only [htext, ne_eq, not_true_eq_false, and_false, if_false, hdone, not_false_eq_true,
          and_self, if_true]
        subst hreasons
        rcases hstated with hf | hne
        · simp [hf]
        · have hfinish : (normalize provider b true).n.finish ≠ "" := by simpa using hne
          simp [hfinish]
      · rename_i hdone
        obtain ⟨⟨text, later⟩, ha, heq⟩ := Option.map_eq_some_iff.mp h
        obtain ⟨htext, hreasons⟩ := Prod.mk.inj heq
        obtain ⟨hhere, hlater⟩ := String.append_eq_empty_iff.mp htext
        dsimp only at hlater hreasons
        subst hlater
        rw [if_neg (by simp [hhere]), if_neg hdone]
        refine ih ha ?_
        subst hreasons
        rcases hstated with hf | hne
        · simp [hf]
        · by_cases hfinish : (normalize provider b true).n.finish = ""
          · right
            simpa [hfinish] using hne
          · simp [hfinish]

theorem valid_of_empty {u : Upstream} {contentType : String} {body : Body}
    (h : EmptyAnswer lib u contentType body) : ValidAnswer lib u contentType body := by
  unfold EmptyAnswer at h
  unfold ValidAnswer
  split at h
  · rename_i hs
    obtain ⟨b, reasons, hb, ha, hne, -⟩ := h
    rw [if_pos hs]
    exact ⟨b, hb, follow_of_assembled _ ha (.inr hne)⟩
  · rename_i hs
    obtain ⟨data, hdata, herr, -⟩ := h
    rw [if_neg hs]
    exact ⟨data, hdata, herr⟩

end

/-- An outcome that may be tried elsewhere was no acceptance. -/
theorem unaccepted_of_replayable {lib : Lib} {u : Upstream} {o : Outcome} (h : Replayable lib u o) :
    Unaccepted lib (u, o) := by
  cases o with
  | failed => exact h
  | response status retryAfter contentType body =>
    have hcallers : callersFault status = true →
        Unaccepted lib (u, .response status retryAfter contentType body) := by
      intro hfault
      refine .inl ⟨?_, ?_⟩
      · rintro rfl
        exact absurd hfault (by decide)
      · rintro ⟨-, -, hother⟩
        rw [hfault] at hother
        cases hother
    rcases h with hs | ⟨hfault, -⟩ | ⟨hfault, -⟩ | hempty
    · refine .inl ⟨?_, ?_⟩
      · rintro rfl
        exact absurd hs (by decide)
      · rintro ⟨-, hterminal, -⟩
        simp only [List.mem_cons, List.not_mem_nil, or_false] at hs
        rcases hs with rfl | rfl | rfl | rfl | rfl
        all_goals
          simp only [classify] at hterminal
          repeat' split at hterminal
        all_goals simp_all
    · exact hcallers hfault
    · exact hcallers hfault
    · exact .inr hempty

theorem unaccepted_of_releasable {lib : Lib} {u : Upstream} {o : Outcome} (h : Releasable lib u o) :
    Unaccepted lib (u, o) ∨ TerminalStatus (u, o) := by
  cases o with
  | failed => exact h.elim
  | response status retryAfter contentType body =>
    by_cases hterminal : TerminalStatus (u, .response status retryAfter contentType body)
    · exact .inr hterminal
    · by_cases hs : status = 200
      · exact .inl (.inr ⟨hs, h.resolve_left (not_not.mpr hs)⟩)
      · exact .inl (.inl ⟨hs, hterminal⟩)

/-- An acceptance whose outcome is not known is not given back. -/
theorem not_releasable {lib : Lib} {u : Upstream} {o : Outcome} (h : Ambiguous lib (u, o))
    (hterminal : ¬ TerminalStatus (u, o)) : ¬ Releasable lib u o := by
  cases o with
  | failed => exact fun hr => hr
  | response status retryAfter contentType body =>
    obtain ⟨hs, hinvalid⟩ := h.resolve_right hterminal
    rintro (hne | hempty)
    · exact hne hs
    · exact hinvalid (valid_of_empty hempty)

section
variable {srv : Server} {t : Task} {p : M (Option Event)} {pre post log : List (Effect.Event Op Ans)}
  {key : String} {e : IdemEntry}

theorem exchanges_append (xs ys : List (Effect.Event Op Ans)) :
    exchanges (xs ++ ys) = exchanges xs ++ exchanges ys := List.filterMap_append

theorem exchanges_idle (h : ∀ e ∈ log, sends e = false) : exchanges log = [] := by
  refine List.filterMap_eq_nil_iff.mpr (fun e he => ?_)
  have hs := h e he
  obtain ⟨o, x⟩ := e
  cases o with
  | send u => cases hs
  | _ => rfl

/-- The last exchange is the one that is kept in mind. -/
theorem last_exchange (srv : Server) (t : Task) (log : List (Effect.Event Op Ans)) :
    ((rules srv).after (ghost t) log).last = (exchanges log).getLast? := by
  induction log using List.reverseRecOn with
  | nil => cases t <;> rfl
  | append_singleton log e ih =>
    rw [Monitor.after_append, exchanges_append]
    have hframe := next_frame srv (fun _ => True) ((rules srv).after (ghost t) log) e.op e.ans
    obtain ⟨o, x⟩ := e
    cases o with
    | send u => simp [exchanges, exchangeOf, watch]
    | _ =>
      refine (hframe.last rfl).trans (ih.trans ?_)
      simp [exchanges, exchangeOf]

/-- A request whose claim is closed contacts nobody. -/
theorem closed_idle (h : (t.run srv).Run (pre ++ post) p) (hkey : (ghost t).key ≠ "")
    (hclosed : Closed ((rules srv).after (ghost t) pre).claim) : ∀ e ∈ post, sends e = false := by
  intro e he
  obtain ⟨mid, rest, rfl⟩ := List.append_of_mem he
  rw [← List.append_assoc] at h
  have hok := allowed h
  obtain ⟨q, hq, -⟩ := h.split
  have hstays := claim_stays hq (by
    intro hnone
    rw [hnone] at hclosed
    exact hclosed) (.inl hclosed)
  obtain ⟨o, x⟩ := e
  cases o with
  | send u =>
    rcases hok with hcheck | ⟨hopen, -⟩
    · rw [after_check] at hcheck
      cases t with
      | chat r => cases hcheck
      | probeProviders => exact absurd rfl hkey
    · obtain ⟨stored, body, ho⟩ := hopen (by rwa [after_key])
      rw [← hstays, ho] at hclosed
      exact hclosed.elim
  | _ => rfl

/-- What an outcome that was recorded says about the last exchange. -/
theorem finished_exchange (h : (t.run srv).Run log p) (hkey : (ghost t).key ≠ "")
    (hmem : (⟨.finishKey key e, ()⟩ : Effect.Event Op Ans) ∈ log) :
    ∃ x, (exchanges log).getLast? = some x ∧ Undertaken x.2 ∧
      (e.state = .done → Credits srv.lib x) := by
  obtain ⟨pre, post, rfl⟩ := List.append_of_mem hmem
  obtain ⟨-, -, -, stored, body, hopen, -, x, hlast, hundertaken⟩ := allowed h
  have hdone := Monitor.ok_run h (Ledger.task_account srv t)
    (Monitor.relied_of_may (Ledger.account_may srv) _ _)
  rw [last_exchange] at hlast
  have hidle : exchanges (pre ++ ⟨.finishKey key e, ()⟩ :: post) = exchanges pre := by
    rw [List.append_cons] at h ⊢
    rw [exchanges_append, exchanges_idle (closed_idle h hkey ?_), exchanges_append]
    · simp [exchanges, exchangeOf]
    · rw [Monitor.after_append]
      change Closed (Ghost.finished _ e).claim
      simp only [Ghost.finished, hopen, Closed]
  refine ⟨x, by rw [hidle, hlast], hundertaken, fun hd => ?_⟩
  obtain ⟨y, hy, hcredits⟩ := hdone hd
  rw [Ledger.after_last, hlast] at hy
  cases hy
  exact hcredits

theorem released_claim (h : (t.run srv).Run log p)
    (hmem : (⟨.releaseKey key, ()⟩ : Effect.Event Op Ans) ∈ log) :
    ∃ stored, ((rules srv).after (ghost t) log).claim = .released stored := by
  obtain ⟨pre, post, rfl⟩ := List.append_of_mem hmem
  obtain ⟨-, ⟨stored, body, hopen⟩, -⟩ := allowed h
  have hclaim : ((rules srv).after (ghost t) (pre ++ [⟨.releaseKey key, ()⟩])).claim =
      .released stored := by
    rw [Monitor.after_append]
    change (Ghost.given _).claim = _
    simp only [Ghost.given, hopen]
  refine ⟨stored, ?_⟩
  rw [List.append_cons] at h ⊢
  rw [claim_stays h (by rw [hclaim]; rintro ⟨⟩) (.inl (by rw [hclaim]; trivial)), hclaim]

/-- Whatever was recorded was recorded at some point. -/
theorem finished_of_recorded {stored : Bool} {body : Bytes}
    (h : ((rules srv).after (ghost t) log).claim = .recorded stored body e) :
    ∃ k, (⟨.finishKey k e, ()⟩ : Effect.Event Op Ans) ∈ log := by
  induction log using List.reverseRecOn with
  | nil =>
    rw [Monitor.after_nil, ghost_claim] at h
    cases h
  | append_singleton log d ih =>
    rw [Monitor.after_append, Monitor.after_cons, Monitor.after_nil] at h
    have hframe := next_frame srv (fun _ => True) ((rules srv).after (ghost t) log) d.op d.ans
    have hkeep : ((rules srv).after (ghost t) log).claim = .recorded stored body e →
        ∃ k, (⟨.finishKey k e, ()⟩ : Effect.Event Op Ans) ∈ log ++ [d] := by
      intro hc
      obtain ⟨k, hk⟩ := ih hc
      exact ⟨k, List.mem_append_left _ hk⟩
    obtain ⟨o, x⟩ := d
    cases o with
    | beginKey k b =>
      have hclaim : claimOf b x = .recorded stored body e := (begun_claim _ b x).symm.trans h
      rcases x with er | prior
      · cases er <;> cases hclaim
      · cases prior <;> cases hclaim
    | finishKey k d =>
      simp only [watch, Ghost.finished] at h
      split at h
      · cases h
        exact ⟨k, by simp⟩
      · exact hkeep h
    | releaseKey k =>
      simp only [watch, Ghost.given] at h
      split at h
      · cases h
      · exact hkeep h
    | _ => exact hkeep ((hframe.claim rfl).symm.trans h)

end

/-- What has become of the key of a request that has returned. -/
theorem concluded_of_run {srv : Server} {t : Task} {log : List (Effect.Event Op Ans)} {event : Event}
    (h : (t.run srv).Run log (.ret (some event))) :
    Concluded srv.lib event ((rules srv).after (ghost t) log) :=
  Returned.concluded (Monitor.wp_run h (run_spec srv (fun _ => True) t)
    (Monitor.relied_of_may (rules_may srv) _ _))

/-- After an ambiguous outcome, no terminal status, the request has recorded that it does not
know. -/
theorem unknown_of_ambiguous {srv : Server} {t : Task} {log : List (Effect.Event Op Ans)}
    {event : Event} {x : Upstream × Outcome} (h : (t.run srv).Run log (.ret (some event)))
    (hkey : (ghost t).key ≠ "") (hlast : (exchanges log).getLast? = some x)
    (hx : Ambiguous srv.lib x) (hterminal : ¬ TerminalStatus x) :
    ∃ e, (⟨.finishKey (ghost t).key e, ()⟩ : Effect.Event Op Ans) ∈ log ∧ e.state = .unknown := by
  have hconcluded := concluded_of_run h
  have hghost := (last_exchange srv t log).trans hlast
  unfold Concluded at hconcluded
  split at hconcluded
  · have hnone := hconcluded (by rwa [after_key])
    rw [hghost] at hnone
    cases hnone
  · exact hconcluded.elim
  · rw [hghost] at hconcluded
    cases hconcluded.2
  · rw [hghost] at hconcluded
    cases hconcluded.2.2
  · exact absurd (hconcluded x hghost) (not_releasable hx hterminal)
  · rename_i stored body e hclaim
    obtain ⟨k, hmem⟩ := finished_of_recorded hclaim
    obtain rfl := (finished_claim h hmem).1
    refine ⟨e, hmem, ?_⟩
    rcases hconcluded with hunknown | ⟨hdone, -⟩
    · exact hunknown
    · obtain ⟨y, hy, -, hcredits⟩ := finished_exchange h hkey hmem
      rw [hlast] at hy
      cases hy
      obtain ⟨u, o⟩ := x
      cases o with
      | failed => exact (hcredits hdone).elim
      | response status retryAfter contentType body =>
        exact absurd (hcredits hdone).2 (hx.resolve_right hterminal).2

/-- Every exchange of a request that gave its key back was no acceptance, or ended with a
terminal status. -/
theorem released_exchanges {srv : Server} {t : Task} {log : List (Effect.Event Op Ans)}
    {event : Event} {key : String} (h : (t.run srv).Run log (.ret (some event)))
    (hmem : (⟨.releaseKey key, ()⟩ : Effect.Event Op Ans) ∈ log) :
    ∀ x ∈ exchanges log, Unaccepted srv.lib x ∨ TerminalStatus x := by
  intro x hx
  obtain ⟨⟨o, a⟩, hd, he⟩ := List.mem_filterMap.mp hx
  cases o with
  | send u =>
    cases he
    obtain ⟨pre, post, rfl⟩ := List.append_of_mem hd
    by_cases hlater : ∃ e ∈ post, sends e = true
    · obtain ⟨mid, u', o', rest, rfl, hmid⟩ := first_send hlater
      obtain ⟨r, hchat⟩ := Ledger.chat_of_task h
      have hsplit : pre ++ ⟨.send u, a⟩ :: (mid ++ ⟨.send u', o'⟩ :: rest) =
          (pre ++ ⟨.send u, a⟩ :: mid) ++ ⟨.send u', o'⟩ :: rest := by
        rw [List.append_assoc, List.cons_append]
      exact .inl (unaccepted_of_replayable (send_after_send hchat hsplit hmid).1)
    · have hidle : exchanges post = [] := exchanges_idle (by simpa using hlater)
      have hlast := last_exchange srv t (pre ++ ⟨.send u, a⟩ :: post)
      rw [List.append_cons, exchanges_append, hidle, exchanges_append] at hlast
      obtain ⟨stored, hclaim⟩ := released_claim h hmem
      have hconcluded := concluded_of_run h
      rw [Concluded, hclaim] at hconcluded
      refine unaccepted_of_releasable (hconcluded (u, a) ?_)
      rw [List.append_cons, hlast]
      simp [exchanges, exchangeOf]
  | _ => cases he

/-- As long as no write for the key is refused or fails and its entry does not grow old: when
a request with the key returns after an outcome that may have been an acceptance, the key's
entry says that the outcome is unknown, with the hash of the body, so that the same request
again is refused and contacts no provider, exactly if that outcome was not a terminal status.
The key is given back only if no exchange was an acceptance, except with a complete answer
that is empty, or after a terminal status. -/
theorem ambiguous_outcome_is_sticky_iff [DecidableEq ι]
    (ed25519Verify : Bytes → Bytes → Bytes → Bool) (srv : Server)
    (hsha : Function.Injective srv.lib.sha256) (tasks : ι → Task) (w : World) (key : String)
    (hkey : key ≠ "") (hspared : Spared srv.lib.sha256 key w)
    (c : Conf Op Ans World ι (Option Event))
    (hr : (machine ed25519Verify srv).Reaches (Undisturbed srv.lib.sha256 key)
      (.start w (fun i => (tasks i).run srv)) c)
    (i : ι) (q : Request) (htask : tasks i = .chat q) (hq : q.idempotencyKey = key) (event : Event)
    (hret : c.prog i = .ret (some event)) :
    (∀ x, (exchanges (c.log i)).getLast? = some x → Ambiguous srv.lib x →
      ((∃ body e, (⟨.beginKey key body, .ok none⟩ : Effect.Event Op Ans) ∈ c.log i ∧
        (⟨.finishKey key e, ()⟩ : Effect.Event Op Ans) ∈ c.log i ∧ e.state = .unknown ∧
        e.bodyHash = hashBody srv.lib.sha256 body ∧ Stands srv.lib.sha256 key e c.state ∧
        ∀ j k r s', c.prog j = .op (.beginKey key body) k →
          (machine ed25519Verify srv).step c.state (.beginKey key body) r s' →
          (Undisturbed srv.lib.sha256 key).run c j ⟨.beginKey key body, r⟩ s' →
          r = .error .conflict) ↔ ¬ TerminalStatus x)) ∧
    ((⟨.releaseKey key, ()⟩ : Effect.Event Op Ans) ∈ c.log i →
      ∀ x ∈ exchanges (c.log i), Unaccepted srv.lib x ∨ TerminalStatus x) ∧
    (∀ j body, (⟨.beginKey key body, .error .conflict⟩ : Effect.Event Op Ans) ∈ c.log j →
      (∀ e ∈ c.log j, sends e = false) ∧
      ∀ event, c.prog j = .ret (some event) → Answered (.error .conflict) event (c.log j)) := by
  have hrun := Machine.run_of_reaches hr i
  rw [hret] at hrun
  have hgkey : (ghost (tasks i)).key = key := by rw [htask]; exact hq
  refine ⟨fun x hlast hx => ⟨?_, fun hterminal => ?_⟩, released_exchanges hrun, fun j body hmem => ?_⟩
  · rintro ⟨body, e, -, hmem, -⟩ hterminal
    obtain ⟨y, hy, hundertaken, -⟩ := finished_exchange hrun (by rwa [hgkey]) hmem
    rw [hlast] at hy
    cases hy
    obtain ⟨u, o⟩ := x
    cases o with
    | failed => exact hterminal
    | response status retryAfter contentType body => exact hterminal.1 hundertaken
  · obtain ⟨e, hmem, hunknown⟩ := unknown_of_ambiguous hrun (by rwa [hgkey]) hlast hx hterminal
    rw [hgkey] at hmem
    obtain ⟨body, hbegin, hstands, hhash⟩ := finished_reaches hsha hspared hr i hmem
    refine ⟨body, e, hbegin, hmem, hunknown, hhash, hstands, fun j k r s' hp hs hcond => ?_⟩
    obtain ⟨ch, hs⟩ := hs
    obtain ⟨rfl, -⟩ := begun_standing hstands (hcond.1 body _ rfl).1 (Honest.begin_step hs)
    rw [verdict_of_body hsha hhash, if_pos rfl, if_neg (by rw [hunknown]; nofun)]
  · obtain ⟨hidle, hanswered⟩ := refused_idle hkey hr j hmem nofun
    exact ⟨fun e he => (hidle e he).1, hanswered⟩

/-- The same request twice, where every exchange ends with `o`. The second goes as far as to
contact a provider, if it gets there. -/
def retried (o : Outcome) : Conf Op Ans World Bool (Option Event) :=
  (driver (fun _ _ _ => true) plainServer).play (fun c _ e s => gentle id "k" c.state s e)
    (fun c _ => calm id "k" c.state) 200
    [.go false (fun _ => false) (smooth o), .go true sending (smooth o)]
    (.start (plainWorld plainConfig) (fun _ => (Task.chat (plainRequest "k")).run plainServer))

theorem retried_reached (o : Outcome) :
    (machine (fun _ _ _ => true) plainServer).Reaches (Undisturbed id "k")
      (.start (plainWorld plainConfig) (fun _ => (Task.chat (plainRequest "k")).run plainServer))
      (retried o) :=
  Effect.Driver.play_reaches (fun _ i _ _ h => undisturbed_of_gentle h i)
    (fun _ _ h => young_of_calm h) _ _ _

/-- What was recorded for a key. -/
def stateOf : Effect.Event Op Ans → Option IdemState
  | ⟨.finishKey _ e, _⟩ => some e.state
  | _ => none

/-- The last outcome of the first request, what it recorded and whether it has returned, and
what the second holds. -/
def retrial (c : Conf Op Ans World Bool (Option Event)) :
    Option Outcome × Option IdemState × Bool × Option (String × Bytes) :=
  ((exchanges (c.log false)).getLast?.map Prod.snd, (c.log false).findSome? stateOf,
    ((c.prog false).result.bind id).isSome,
    heldBy ((rules plainServer).after (ghost (.chat (plainRequest "k"))) (c.log true)))

theorem returned_of_isSome {p : M (Option Event)} (h : (p.result.bind id).isSome = true) :
    ∃ event, p = .ret (some event) := by
  obtain ⟨event, he⟩ := Option.isSome_iff_exists.mp h
  obtain ⟨result, hresult, hid⟩ := Option.bind_eq_some_iff.mp he
  exact ⟨event, hid ▸ Prog.eq_ret_of_result hresult⟩

/-- The provider answers 500, nothing is recorded, and the same request again contacts a
provider. -/
theorem terminal_status_gives_key_back :
    ∃ x, (exchanges ((retried down).log false)).getLast? = some x ∧ Ambiguous plainLib x ∧
      (∃ event, (retried down).prog false = .ret (some event)) ∧
      (∀ e, (⟨.finishKey "k" e, ()⟩ : Effect.Event Op Ans) ∉ (retried down).log false) ∧
      InFlight "k" plainBody ((retried down).log true) := by
  have hfacts : retrial (retried down) = (some down, none, true, some ("k", plainBody)) := by
    decide +kernel
  simp only [retrial, Prod.mk.injEq] at hfacts
  obtain ⟨hlast, hnone, hreturned, hheld⟩ := hfacts
  obtain ⟨⟨u, o⟩, hx, rfl⟩ := Option.map_eq_some_iff.mp hlast
  refine ⟨(u, down), hx, .inr ⟨by decide, by decide, by decide⟩, returned_of_isSome hreturned, ?_, ?_⟩
  · intro e hmem
    have habsent := List.findSome?_eq_none_iff.mp hnone _ hmem
    cases habsent
  · exact (inFlight_iff (Machine.run_of_reaches (retried_reached down) true)).mpr (holds_of_heldBy hheld)

/-- There is no response, and the key's entry says that the outcome is unknown. -/
theorem ambiguous_outcome_is_sticky_iff_unanswered :
    ∃ body e, (⟨.beginKey "k" body, .ok none⟩ : Effect.Event Op Ans) ∈ (retried .failed).log false ∧
      e.state = .unknown ∧ Stands id "k" e (retried .failed).state := by
  have hfacts : retrial (retried .failed) = (some .failed, some .unknown, true, none) := by
    decide +kernel
  simp only [retrial, Prod.mk.injEq] at hfacts
  obtain ⟨hlast, -, hreturned, -⟩ := hfacts
  obtain ⟨⟨u, o⟩, hx, rfl⟩ := Option.map_eq_some_iff.mp hlast
  obtain ⟨event, hret⟩ := returned_of_isSome hreturned
  obtain ⟨hsticky, -⟩ := ambiguous_outcome_is_sticky_iff _ plainServer Function.injective_id _ _ "k"
    (by decide) (fun _ hv => absurd hv List.not_mem_nil) _ (retried_reached .failed) false _ rfl rfl
    event hret
  obtain ⟨body, e, hbegin, -, hunknown, -, hstands, -⟩ := (hsticky (u, .failed) hx trivial).mpr (fun h => h)
  exact ⟨body, e, hbegin, hunknown, hstands⟩

end Switchboard.Proofs.Sticky
