import Switchboard.Proofs.Ledger
import Switchboard.Proofs.Ownership

namespace Switchboard.Proofs.Once
open Text Gateway Watch Steps Entry Store Honest Holding Ownership NoReplay IdemStore
open Tally (account Sheet Replays Spoken Emitted)
open Ledger (shown exchanges bytesOf)
open Effect (Monitor Prog Machine Conf)

/-- No write for `key` is refused or fails, and neither a request that asks for the key nor the
sweep finds its entry too old. -/
def Undisturbed (sha : Bytes → Bytes) (key : String) :
    Effect.Condition Op Ans World ι (Option Event) where
  run c _ e s := (∀ body r, e = ⟨.beginKey key body, r⟩ →
      Young sha key c.state ∧ r ≠ .error .full ∧ r ≠ .error .disk) ∧
    ∀ entry, e = ⟨.finishKey key entry, ()⟩ →
      s.idem.files.lookup (path sha key) = some ⟨encodeEntry entry, c.state.now⟩
  env c _ := Young sha key c.state

/-- The entry of `key` is what became of it last, and everybody who works on it holds it. -/
structure Settled (sha : Bytes → Bytes) (key : String) (w : World) (g : ι → Ghost) : Prop
    extends Owned sha key w g where
  stored : ∀ i b, ¬ Loose key b (g i)
  unlisted : Spared sha key w
  recorded : ∀ i s b e, (g i).key = key → (g i).claim = .recorded s b e →
    Stands sha key e w ∧ e.state ≠ .running ∧ e.bodyHash = hashBody sha b

section
variable {sha : Bytes → Bytes} {key : String} {w w' : World} {g : ι → Ghost}

theorem Settled.change {ed : Bytes → Bytes → Bytes → Bool} {c : Change} (h : Settled sha key w g)
    (hyoung : Young sha key w) (hc : w.change ed c = some w') : Settled sha key w' g := by
  obtain ⟨hspared, hfile⟩ := h.unlisted.change hyoung hc
  refine ⟨(h.toOwned.change (fun _ => hyoung) hc).1, h.stored, hspared, ?_⟩
  intro i s b e hk he
  obtain ⟨hstands, hrest⟩ := h.recorded i s b e hk he
  exact ⟨hstands.same hfile, hrest⟩

/-- Nobody settles a key for which something has been recorded. -/
theorem Settled.unopened {stored s : Bool} {body b : Bytes} {e : IdemEntry} {i j : ι}
    (h : Settled sha key w g) (hk : (g i).key = key) (hopen : (g i).claim = .opened stored body)
    (hj : (g j).key = key) (he : (g j).claim = .recorded s b e) : False := by
  cases stored with
  | false => exact h.stored i body ⟨hk, hopen⟩
  | true =>
    obtain ⟨t, hstands⟩ := h.stands i body ⟨hk, hopen⟩
    obtain ⟨hrecorded, hstate, -⟩ := h.recorded j s b e hj he
    obtain rfl := hstands.unique hrecorded
    exact hstate rfl

variable [DecidableEq ι] {i : ι} {gi : Ghost}

theorem Settled.step {e : Effect.Event Op Ans} (h : Settled sha key w g)
    (hm : Meant sha key w w' (g i) gi e) (hkey : gi.key = (g i).key)
    (hsweeper : w'.sweeper = w.sweeper)
    (hasked : ∀ body r, e = ⟨.beginKey key body, r⟩ →
      Young sha key w ∧ r ≠ .error .full ∧ r ≠ .error .disk)
    (hlanded : ∀ entry, e = ⟨.finishKey key entry, ()⟩ →
      w'.idem.files.lookup (path sha key) = some ⟨encodeEntry entry, w.now⟩) :
    Settled sha key w' (Function.update g i gi) := by
  have howned := (h.toOwned.step hm hkey hsweeper (fun body r he =>
    ⟨fun _ => (hasked body r he).1, fun _ => ⟨h.stored, h.unlisted⟩⟩)).1
  have hspared : Spared sha key w' := fun v hv => h.unlisted v (hsweeper ▸ hv)
  have hback : ∀ {P : Ghost → Prop} {j : ι}, P (Function.update g i gi j) → ¬ P gi → P (g j) := by
    intro P j hj hi
    rcases update_cases (P := P) hj with ⟨-, hj⟩ | ⟨-, hj⟩
    · exact hj
    · exact absurd hj hi
  cases hm with
  | quiet _ hfile hsame =>
    refine ⟨howned, ?_, hspared, ?_⟩
    · intro j b hj
      rcases update_cases (P := Loose key b) hj with ⟨-, hj⟩ | ⟨-, hk, hc⟩
      · exact h.stored j b hj
      · have hk' : (g i).key = key := hkey.symm.trans hk
        exact h.stored i b ⟨hk', (hsame hk').symm.trans hc⟩
    · intro j s b e hk he
      have hold : (g j).key = key ∧ (g j).claim = .recorded s b e := by
        rcases update_cases (P := fun g => g.key = key ∧ g.claim = .recorded s b e) ⟨hk, he⟩ with
          ⟨-, hj⟩ | ⟨rfl, hk, hc⟩
        · exact hj
        · have hk' : (g j).key = key := hkey.symm.trans hk
          exact ⟨hk', (hsame hk').symm.trans hc⟩
      obtain ⟨hstands, hrest⟩ := h.recorded j s b e hold.1 hold.2
      exact ⟨hstands.same hfile, hrest⟩
  | begun body r hk hnone hb hclaim =>
    obtain ⟨hyoung, hfull, hdisk⟩ := hasked body r rfl
    refine ⟨howned, ?_, hspared, ?_⟩
    · intro j b hj
      refine h.stored j b (hback (P := Loose key b) hj ?_)
      rintro ⟨-, hc⟩
      rw [hclaim] at hc
      rcases r with er | prior
      · cases er with
        | full => exact hfull rfl
        | disk => exact hdisk rfl
        | _ => cases hc
      · cases prior <;> cases hc
    · intro j s b e hkj he
      have hold := hback (P := fun g => g.key = key ∧ g.claim = .recorded s b e) ⟨hkj, he⟩ (by
        rintro ⟨-, hc⟩
        rw [hclaim] at hc
        rcases r with er | prior
        · cases er <;> cases hc
        · cases prior <;> cases hc)
      obtain ⟨hstands, hrest⟩ := h.recorded j s b e hold.1 hold.2
      refine ⟨hstands.same ?_, hrest⟩
      rw [(begun_standing hstands hyoung hb).2]
  | finished stored body e r hk hopen hstorable hstate hhash hw hclaim =>
    refine ⟨howned, ?_, hspared, ?_⟩
    · intro j b hj
      refine h.stored j b (hback (P := Loose key b) hj ?_)
      rintro ⟨-, hc⟩
      rw [hclaim] at hc
      cases hc
    · intro j s b d hkj hd
      rcases update_cases (P := fun g => g.key = key ∧ g.claim = .recorded s b d) ⟨hkj, hd⟩ with
        ⟨-, hj, hc⟩ | ⟨-, -, hc⟩
      · exact (h.unopened hk hopen hj hc).elim
      · rw [hclaim] at hc
        cases hc
        exact ⟨⟨hstorable, _, hlanded e rfl, rfl⟩, hstate, hhash⟩
  | released stored body removed hk hopen _ hclaim =>
    refine ⟨howned, ?_, hspared, ?_⟩
    · intro j b hj
      refine h.stored j b (hback (P := Loose key b) hj ?_)
      rintro ⟨-, hc⟩
      rw [hclaim] at hc
      cases hc
    · intro j s b d hkj hd
      rcases update_cases (P := fun g => g.key = key ∧ g.claim = .recorded s b d) ⟨hkj, hd⟩ with
        ⟨-, hj, hc⟩ | ⟨-, -, hc⟩
      · exact (h.unopened hk hopen hj hc).elim
      · rw [hclaim] at hc
        cases hc

end

section
variable [DecidableEq ι] {ed : Bytes → Bytes → Bytes → Bool} {srv : Server} {tasks : ι → Task}
  {w : World} {key : String} {c : Conf Op Ans World ι (Option Event)}

theorem settled_reaches (hsha : Function.Injective srv.lib.sha256)
    (hspared : Spared srv.lib.sha256 key w)
    (hr : (machine ed srv).Reaches (Undisturbed srv.lib.sha256 key)
      (.start w (fun i => (tasks i).run srv)) c) :
    Settled srv.lib.sha256 key c.state (ghosts srv tasks c) := by
  refine (Machine.invariant (G := rules srv) (I := Settled srv.lib.sha256 key)
    (fun i => run_spec srv (fun _ => True) (tasks i)) ⟨.vacant ?_, ?_, hspared, ?_⟩ ?_ ?_ hr).1
  · intro i b hi
    have hc := hi.2
    rw [ghost_claim] at hc
    cases hc
  · intro i b hi
    have hc := hi.2
    rw [ghost_claim] at hc
    cases hc
  · intro i s b e _ he
    rw [ghost_claim] at he
    cases he
  · intro d s' _ hi he hyoung
    obtain ⟨change, hc⟩ := he
    exact hi.change hyoung hc
  · intro d i o x s' _ hi hok hs hp
    obtain ⟨ch, hs⟩ := hs
    refine ⟨rules_may srv _ o x, hi.step (meant hsha hok hs) ?_ (perform_kept hs).sweeper hp.1 hp.2⟩
    exact (next_frame srv (fun _ => True) _ o x).key

/-- Nobody has to go on without an entry. -/
theorem landed_reaches
    (hr : (machine ed srv).Reaches (Undisturbed srv.lib.sha256 key)
      (.start w (fun i => (tasks i).run srv)) c) (i : ι) {body : Bytes}
    {r : Except StoreError (Option IdemEntry)}
    (hmem : (⟨.beginKey key body, r⟩ : Effect.Event Op Ans) ∈ c.log i) :
    r ≠ .error .full ∧ r ≠ .error .disk := by
  refine Machine.logged (L := fun e => ∀ body r, e = ⟨.beginKey key body, r⟩ →
    r ≠ .error .full ∧ r ≠ .error .disk) ?_ hr i _ hmem body r rfl
  intro d j o x s' _ _ hp body r he
  exact (hp.1 body r he).2

end

/-- How somebody is answered who asked for a key and was told `r`, if that is the end of it. -/
def Answered (r : Except StoreError (Option IdemEntry)) (event : Event)
    (log : List (Effect.Event Op Ans)) : Prop :=
  match r with
  | .error .mismatch => event.status = 422 ∧ shown log = some 422
  | .error .conflict => event.status = 409 ∧ shown log = some 409
  | .ok (some e) => event.status = e.status ∧ event.replayed = true ∧
      shown log = some (if e.stream = true then 200 else e.status) ∧ Replays e (log.flatMap Ledger.bytesOf)
  | _ => True

section
variable {srv : Server} {t : Task} {log : List (Effect.Event Op Ans)} {key : String} {body : Bytes}
  {r : Except StoreError (Option IdemEntry)}

/-- What a request was told about its key is what its account says. -/
theorem prior_of_asked {p : M (Option Event)} (h : (t.run srv).Run log p)
    (hmem : (⟨.beginKey key body, r⟩ : Effect.Event Op Ans) ∈ log) :
    ((account srv {}).after {} log).prior = some r := by
  obtain ⟨pre, post, rfl⟩ := List.append_of_mem hmem
  have honce := asked_once h
  rw [Monitor.after_append, Monitor.after_cons]
  have hstays : ∀ g : Sheet, g.prior = some r → ((account srv {}).after g post).prior = some r := by
    clear h hmem
    induction post with
    | nil => exact fun g hg => hg
    | cons e post ih =>
      intro g hg
      rw [Monitor.after_cons]
      refine ih (fun d hd => honce d (List.mem_cons_of_mem _ hd)) _ ?_
      rw [(Ledger.entered g e.op e.ans).prior, hg]
      obtain ⟨o, x⟩ := e
      cases o with
      | beginKey k b => exact absurd rfl (honce _ List.mem_cons_self k b x)
      | _ => rfl
  exact hstays _ rfl

theorem answered_of_asked {event : Event} (h : (t.run srv).Run log (.ret (some event)))
    (hmem : (⟨.beginKey key body, r⟩ : Effect.Event Op Ans) ∈ log) : Answered r event log := by
  have hprior := prior_of_asked h hmem
  obtain ⟨q, hrun⟩ := Ledger.chat_of_task h
  obtain ⟨base, hanswered⟩ := (Ledger.emitted_of_run hrun).answered
  have hspoken := hanswered.spoken
  unfold Spoken at hspoken
  rw [hprior, Ledger.after_shown, Ledger.after_said] at hspoken
  unfold Answered
  rcases r with er | prior
  · cases er with
    | mismatch => exact ⟨hspoken.1, hspoken.2.1⟩
    | conflict => exact ⟨hspoken.1, hspoken.2.1⟩
    | _ => trivial
  · cases prior with
    | none => trivial
    | some e => exact ⟨hspoken.1, hspoken.2.1, hspoken.2.2.1, hspoken.2.2.2.2⟩

end

theorem verdict_of_body {sha : Bytes → Bytes} (hsha : Function.Injective sha) {e : IdemEntry}
    {b : Bytes} (he : e.bodyHash = hashBody sha b) (body : Bytes) :
    verdict sha e body = if body = b then (if e.state = .done then .ok (some e) else .error .conflict)
      else .error .mismatch := by
  unfold verdict
  rw [he]
  by_cases hb : body = b
  · rw [if_neg (not_not.mpr (by rw [hb])), if_pos hb]
  · rw [if_pos (fun h => hb (hashBody_injective hsha h).symm), if_neg hb]

/-- Whoever is told anything but that the key is theirs contacts no provider, leaves the key
alone and is answered by what was found. -/
theorem refused_idle [DecidableEq ι] {ed : Bytes → Bytes → Bytes → Bool} {srv : Server}
    {tasks : ι → Task} {w : World} {key : String} {c : Conf Op Ans World ι (Option Event)}
    (hkey : key ≠ "") (hr : (machine ed srv).Reaches (Undisturbed srv.lib.sha256 key)
      (.start w (fun i => (tasks i).run srv)) c) (i : ι) {body : Bytes}
    {r : Except StoreError (Option IdemEntry)}
    (hmem : (⟨.beginKey key body, r⟩ : Effect.Event Op Ans) ∈ c.log i) (hne : r ≠ .ok none) :
    (∀ e ∈ c.log i, sends e = false ∧ settles e = false) ∧
      ∀ event, c.prog i = .ret (some event) → Answered r event (c.log i) := by
  have hrun := Machine.run_of_reaches hr i
  obtain ⟨hfull, hdisk⟩ := landed_reaches hr i hmem
  have hclosed : Closed (claimOf body r) ∧ ¬ Entered (claimOf body r) := by
    rcases r with er | prior
    · cases er with
      | full => exact absurd rfl hfull
      | disk => exact absurd rfl hdisk
      | _ => exact ⟨trivial, fun h => h⟩
    · cases prior with
      | none => exact absurd rfl hne
      | some d => exact ⟨trivial, fun h => h⟩
  obtain ⟨hikey, -, hclaim⟩ := refused_claim hrun hmem hclosed.1
  refine ⟨idle_of_closed hrun (by rw [hikey]; exact hkey) (by rw [hclaim]; exact hclosed.2), ?_⟩
  intro event hret
  exact answered_of_asked (hret ▸ hrun) hmem

/-- Whoever has recorded something for the key had claimed it. -/
theorem finished_reaches [DecidableEq ι] {ed : Bytes → Bytes → Bytes → Bool} {srv : Server}
    {tasks : ι → Task} {w : World} {key : String} {c : Conf Op Ans World ι (Option Event)}
    (hsha : Function.Injective srv.lib.sha256) (hspared : Spared srv.lib.sha256 key w)
    (hr : (machine ed srv).Reaches (Undisturbed srv.lib.sha256 key)
      (.start w (fun i => (tasks i).run srv)) c) (i : ι) {e : IdemEntry}
    (hmem : (⟨.finishKey key e, ()⟩ : Effect.Event Op Ans) ∈ c.log i) :
    ∃ body, (⟨.beginKey key body, .ok none⟩ : Effect.Event Op Ans) ∈ c.log i ∧
      Stands srv.lib.sha256 key e c.state ∧ e.bodyHash = hashBody srv.lib.sha256 body := by
  obtain ⟨hikey, stored, body, r, hclaim, hr', hbegin⟩ :=
    finished_claim (Machine.run_of_reaches hr i) hmem
  obtain ⟨hstands, -, hhash⟩ := (settled_reaches hsha hspared hr).recorded i stored body e
    (by rw [after_key, hikey]) hclaim
  refine ⟨body, ?_, hstands, hhash⟩
  obtain ⟨hfull, hdisk⟩ := landed_reaches hr i hbegin
  rcases r with er | prior
  · cases er with
    | full => exact absurd rfl hfull
    | disk => exact absurd rfl hdisk
    | _ => cases hr'
  · cases prior with
    | none => exact hbegin
    | some d => cases hr'

/-- Whatever requests run side by side, as long as no write for the key is refused or fails and
its entry does not grow old: at most one request is between a successful claim of the key and
its settlement, and only then does a request with that key contact a provider. Whoever asks
for the key while it is held, or after an outcome was recorded, is told so by what the entry
says, leaves it as it is, contacts no provider, and is answered 422, 409 or with what is
stored. -/
theorem idempotency_at_most_once [DecidableEq ι] (ed25519Verify : Bytes → Bytes → Bytes → Bool)
    (srv : Server) (hsha : Function.Injective srv.lib.sha256) (tasks : ι → Task) (w : World)
    (key : String) (hkey : key ≠ "") (hspared : Spared srv.lib.sha256 key w)
    (c : Conf Op Ans World ι (Option Event))
    (hr : (machine ed25519Verify srv).Reaches (Undisturbed srv.lib.sha256 key)
      (.start w (fun i => (tasks i).run srv)) c) :
    (∀ i j b b', InFlight key b (c.log i) → InFlight key b' (c.log j) → i = j) ∧
    (∀ i q u k, tasks i = .chat q → q.idempotencyKey = key → c.prog i = .op (.send u) k →
      ∃ b, InFlight key b (c.log i)) ∧
    (∀ i body k r s', c.prog i = .op (.beginKey key body) k →
      (machine ed25519Verify srv).step c.state (.beginKey key body) r s' →
      (Undisturbed srv.lib.sha256 key).run c i ⟨.beginKey key body, r⟩ s' →
      (∀ j b, InFlight key b (c.log j) →
        r = (if body = b then .error .conflict else .error .mismatch) ∧ s'.idem = c.state.idem) ∧
      (∀ j e, (⟨.finishKey key e, ()⟩ : Effect.Event Op Ans) ∈ c.log j →
        ∃ b, (⟨.beginKey key b, .ok none⟩ : Effect.Event Op Ans) ∈ c.log j ∧
          r = (if body = b then (if e.state = .done then .ok (some e) else .error .conflict)
            else .error .mismatch) ∧ s'.idem = c.state.idem)) ∧
    (∀ i body r, (⟨.beginKey key body, r⟩ : Effect.Event Op Ans) ∈ c.log i → r ≠ .ok none →
      (∀ e ∈ c.log i, sends e = false ∧ settles e = false) ∧
      ∀ event, c.prog i = .ret (some event) → Answered r event (c.log i)) := by
  have hsettled := settled_reaches hsha hspared hr
  have hrun := fun i => Machine.run_of_reaches hr i
  refine ⟨?_, ?_, ?_, ?_⟩
  · intro i j b b' hi hj
    exact hsettled.alone i j b b' ((inFlight_iff (hrun i)).mp hi) ((inFlight_iff (hrun j)).mp hj)
  · intro i q u k hq hqk hp
    have hi := hrun i
    rw [hp] at hi
    have hgkey : (ghost (tasks i)).key = key := by rw [hq]; exact hqk
    rcases next_allowed hi with hcheck | ⟨hopen, -⟩
    · rw [after_check, hq] at hcheck
      cases hcheck
    · obtain ⟨stored, b, hb⟩ := hopen (by rw [after_key, hgkey]; exact hkey)
      cases stored with
      | true => exact ⟨b, (inFlight_iff hi).mpr ⟨by rw [after_key, hgkey], hb⟩⟩
      | false => exact absurd ⟨by rw [after_key, hgkey], hb⟩ (hsettled.stored i b)
  · intro i body k r s' hp hs hcond
    obtain ⟨ch, hs⟩ := hs
    refine ⟨?_, ?_⟩
    · intro j b hj
      obtain ⟨t, hstands⟩ := hsettled.stands j b ((inFlight_iff (hrun j)).mp hj)
      obtain ⟨rfl, hidem⟩ := begun_standing hstands (hcond.1 body _ rfl).1 (begin_step hs)
      exact ⟨verdict_of_body hsha rfl body, hidem⟩
    · intro j e he
      obtain ⟨b, hmem, hstands, hhash⟩ := finished_reaches hsha hspared hr j he
      obtain ⟨rfl, hidem⟩ := begun_standing hstands (hcond.1 body _ rfl).1 (begin_step hs)
      exact ⟨b, hmem, verdict_of_body hsha hhash body, hidem⟩
  · intro i body r hmem hne
    exact refused_idle hkey hr i hmem hne

/-- A step that the request which holds `key` is not disturbed by. -/
def gentle (sha : Bytes → Bytes) (key : String) (w s : World) : Effect.Event Op Ans → Bool
  | ⟨.beginKey _ _, r⟩ => calm sha key w && !storeless ⟨.beginKey key [], r⟩
  | ⟨.finishKey _ e, _⟩ =>
    decide (s.idem.files.lookup (path sha key) = some ⟨encodeEntry e, w.now⟩)
  | _ => true

theorem undisturbed_of_gentle {sha : Bytes → Bytes} {key : String}
    {c : Conf Op Ans World ι (Option Event)} {s : World} {e : Effect.Event Op Ans}
    (h : gentle sha key c.state s e = true) (i : ι) : (Undisturbed sha key).run c i e s := by
  refine ⟨?_, ?_⟩
  · rintro body r rfl
    simp only [gentle, Bool.and_eq_true, Bool.not_eq_true'] at h
    obtain ⟨hcalm, hstored⟩ := h
    refine ⟨young_of_calm hcalm, ?_, ?_⟩
    · rintro rfl
      cases hstored
    · rintro rfl
      cases hstored
  · rintro entry rfl
    simpa [gentle] using h

def wholeAnswer : Outcome := .response 200 "" "application/json" ⟨ascii
  ("\x7b\"choices\":[\x7b\"index\":0,\"message\":\x7b\"role\":\"assistant\",\"content\":\"hi\"\x7d," ++
    "\"finish_reason\":\"stop\"\x7d]\x7d"), false⟩

/-- The same request twice, the second when the first has been answered. -/
def repeated : Conf Op Ans World Bool (Option Event) :=
  (driver (fun _ _ _ => true) plainServer).play (fun c _ e s => gentle id "k" c.state s e)
    (fun c _ => calm id "k" c.state) 200
    [.go false (fun _ => false) (smooth wholeAnswer), .go true (fun _ => false) (smooth wholeAnswer)]
    (.start (plainWorld plainConfig) (fun _ => (Task.chat (plainRequest "k")).run plainServer))

theorem repeated_reached :
    (machine (fun _ _ _ => true) plainServer).Reaches (Undisturbed id "k")
      (.start (plainWorld plainConfig) (fun _ => (Task.chat (plainRequest "k")).run plainServer))
      repeated :=
  Effect.Driver.play_reaches (fun _ i _ _ h => undisturbed_of_gentle h i)
    (fun _ _ h => young_of_calm h) _ _ _

/-- What a request was told that asked for a key. -/
def toldOf : Effect.Event Op Ans → Option (String × Bytes × Except StoreError (Option IdemEntry))
  | ⟨.beginKey k body, r⟩ => some (k, body, r)
  | _ => none

theorem mem_of_toldOf {log : List (Effect.Event Op Ans)} {k : String} {body : Bytes}
    {r : Except StoreError (Option IdemEntry)} (h : log.findSome? toldOf = some (k, body, r)) :
    (⟨.beginKey k body, r⟩ : Effect.Event Op Ans) ∈ log := by
  obtain ⟨⟨o, x⟩, hmem, he⟩ := List.exists_of_findSome?_eq_some h
  cases o with
  | beginKey k' b =>
    cases he
    exact hmem
  | _ => cases he

/-- The status that is repeated, if an answer is. -/
def repeats : Except StoreError (Option IdemEntry) → Option Int
  | .ok (some e) => some e.status
  | _ => none

theorem idempotency_at_most_once_repeated :
    ∃ e event, (⟨.beginKey "k" plainBody, .ok (some e)⟩ : Effect.Event Op Ans) ∈ repeated.log true ∧
      (∀ d ∈ repeated.log true, sends d = false ∧ settles d = false) ∧
      repeated.prog true = .ret (some event) ∧ event.status = e.status ∧ e.status = 200 := by
  have hfacts : ((repeated.log true).findSome? toldOf).map (fun x => (x.1, x.2.1, repeats x.2.2)) =
        some ("k", plainBody, some 200) ∧
      ((repeated.prog true).result.bind id).isSome = true := by
    decide +kernel
  obtain ⟨⟨k, body, r⟩, htold, he⟩ := Option.map_eq_some_iff.mp hfacts.1
  obtain ⟨event, hevent⟩ := Option.isSome_iff_exists.mp hfacts.2
  obtain ⟨result, hresult, hid⟩ := Option.bind_eq_some_iff.mp hevent
  obtain ⟨rfl, hrest⟩ := Prod.mk.inj he
  obtain ⟨rfl, hstatus⟩ := Prod.mk.inj hrest
  have hmem := mem_of_toldOf htold
  have hret : repeated.prog true = .ret (some event) := hid ▸ Prog.eq_ret_of_result hresult
  rcases r with er | prior
  · cases hstatus
  · cases prior with
    | none => cases hstatus
    | some e =>
      obtain ⟨hidle, hanswered⟩ := (idempotency_at_most_once _ plainServer Function.injective_id _ _ "k"
        (by decide) (fun _ hv => absurd hv List.not_mem_nil) _ repeated_reached).2.2.2 true _ _ hmem nofun
      exact ⟨e, event, hmem, hidle, hret, (hanswered event hret).1, Option.some.inj hstatus⟩

end Switchboard.Proofs.Once
