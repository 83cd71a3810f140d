import Switchboard.Proofs.Steps
import Switchboard.Proofs.Store

namespace Switchboard.Proofs.Honest
open Text Gateway Watch Steps Entry Store
open Effect (Monitor Prog Machine Conf)

/-- An entry that is an answer is one with which a request was answered. -/
def Answer (e : IdemEntry) : Prop := e.state = .done → e.status = 200

/-- Every file that can be read holds such an entry. -/
def HonestStore (s : IdemStore) : Prop :=
  ∀ name f e, s.files.lookup name = some f → decodeEntry f.content = some e → Answer e

section
variable {sha : Bytes → Bytes} {s s' : IdemStore} {now : Int} {key : String} {body : Bytes}
  {e : IdemEntry}

/-- A store of which one file has changed. -/
theorem HonestStore.elsewhere {q : String} (h : HonestStore s) (hs : Elsewhere q s s')
    (hq : ∀ f e, s'.files.lookup q = some f → decodeEntry f.content = some e → Answer e) :
    HonestStore s' := by
  intro name f e hf he
  by_cases hn : name = q
  · subst hn
    exact hq f e hf he
  · rw [hs.files name hn] at hf
    exact h name f e hf he

theorem HonestStore.written {r : Option StoreError} (h : HonestStore s) (he : Storable e)
    (ha : Answer e) (hw : Written sha s now key e r s') : HonestStore s' := by
  cases hw with
  | full _ => exact h
  | untouched => exact h
  | torn n _ hs hf =>
    refine h.elsewhere hs (fun f d hd hdec => ?_)
    rw [hf] at hd
    cases hd
    rw [decode_torn he hdec]
    exact ha
  | complete _ hs hf =>
    refine h.elsewhere hs (fun f d hd hdec => ?_)
    rw [hf] at hd
    cases hd
    rw [decode_encode he] at hdec
    cases hdec
    exact ha

theorem HonestStore.begun {r : Except StoreError (Option IdemEntry)} (h : HonestStore s)
    (hb : Begun sha s now key body r s') : HonestStore s' := by
  have hrunning : Answer (running sha now body) := nofun
  cases hb with
  | claimed _ _ hw => exact h.written storable_running hrunning hw
  | disk _ _ hw => exact h.written storable_running hrunning hw
  | _ => exact h

/-- What a claim finds recorded. -/
theorem HonestStore.replay (h : HonestStore s) (hb : Begun sha s now key body (.ok (some e)) s') :
    e.status = 200 := by
  cases hb with
  | replay _ hread _ hdone =>
    unfold IdemStore.read at hread
    split at hread
    · cases hread
    rename_i f hf
    split at hread
    · cases hread
    rename_i d hd
    split at hread
    · cases hread
    · cases hread
      exact h _ f e hf hd hdone

theorem HonestStore.erase {q : String} {used count : Int} (h : HonestStore s) :
    HonestStore { s with files := s.files.erase q, used := used, count := count } := by
  intro name f e hf he
  by_cases hn : name = q
  · subst hn
    rw [AList.lookup_erase] at hf
    cases hf
  · rw [AList.lookup_erase_ne hn] at hf
    exact h name f e hf he

theorem HonestStore.release (h : HonestStore s) (removed : Bool) :
    HonestStore (s.release sha key removed) := by
  unfold IdemStore.release
  split
  · exact h
  · cases removed with
    | true => exact h.erase
    | false => exact h

theorem HonestStore.sweep {w w' : Sweeper} {step : SweepStep} (h : HonestStore s)
    (hs : s.sweep now w step = some (s', w')) : HonestStore s' := by
  unfold IdemStore.sweep at hs
  split at hs
  · split at hs
    · cases hs
      exact h
    · cases hs
  · split at hs
    · split at hs
      · cases hs
        exact h.erase
      · cases hs
        exact h
    · cases hs
  · split at hs
    · cases hs
      exact h
    · cases hs

end

section
variable {srv : Server} {known : String → Prop} {w w' : World} {g : Ghost} {o : Op} {x : Ans o}
  {ch : Chance}

/-- What an operation does to the store. -/
theorem begin_step {k : String} {body : Bytes} {r : Except StoreError (Option IdemEntry)}
    (hs : w.perform srv (.beginKey k body) ch = some (r, w')) :
    Begun srv.lib.sha256 w.idem w.now k body r w'.idem := by
  cases ch with
  | disk d =>
    have hb := begun srv.lib.sha256 w.idem w.now k body d
    cases hs
    rw [(addAll_same _ _).idem]
    exact hb
  | _ => cases hs

theorem finish_step {k : String} {e : IdemEntry} {r : Unit}
    (hs : w.perform srv (.finishKey k e) ch = some (r, w')) :
    ∃ r, Written srv.lib.sha256 w.idem w.now k e r w'.idem := by
  cases ch with
  | disk d =>
    obtain ⟨r, hw⟩ := finish_written srv.lib.sha256 w.idem w.now k e d
    cases hs
    rw [(addAll_same _ _).idem]
    exact ⟨r, hw⟩
  | _ => cases hs

theorem release_step {k : String} {r : Unit} (hs : w.perform srv (.releaseKey k) ch = some (r, w')) :
    ∃ removed, w'.idem = w.idem.release srv.lib.sha256 k removed := by
  cases ch with
  | flag removed =>
    cases hs
    exact ⟨removed, rfl⟩
  | _ => cases hs

theorem HonestStore.perform (h : HonestStore w.idem) (hok : (watch srv known).ok g o)
    (hs : w.perform srv o ch = some (x, w')) : HonestStore w'.idem := by
  cases o with
  | beginKey k body => exact h.begun (begin_step hs)
  | finishKey k e =>
    obtain ⟨-, hstorable, hsettled, -⟩ := hok
    obtain ⟨r, hw⟩ := finish_step hs
    refine h.written hstorable (fun hdone => ?_) hw
    rcases hsettled with hu | ⟨-, hstatus⟩
    · rw [hu] at hdone
      cases hdone
    · exact hstatus
  | releaseKey k =>
    obtain ⟨removed, hidem⟩ := release_step hs
    rw [hidem]
    exact h.release removed
  | _ =>
    rw [(perform_kept hs).idem rfl]
    exact h

theorem HonestStore.change {ed : Bytes → Bytes → Bytes → Bool} {c : Change} (h : HonestStore w.idem)
    (hc : w.change ed c = some w') : HonestStore w'.idem := by
  rcases (change_aged hc).store with ⟨hidem, -⟩ | ⟨step, hsweep⟩
  · rw [hidem]
    exact h
  · exact h.sweep hsweep

end

section
variable [DecidableEq ι] {ed : Bytes → Bytes → Bytes → Bool} {srv : Server} {tasks : ι → Task}
  {w : World} {P : Effect.Condition Op Ans World ι (Option Event)}
  {c : Conf Op Ans World ι (Option Event)}

/-- Whatever requests do, the store stays honest. -/
theorem honest_reaches (h : HonestStore w.idem)
    (hr : (machine ed srv).Reaches P (.start w (fun i => (tasks i).run srv)) c) :
    HonestStore c.state.idem := by
  refine (Machine.invariant (G := rules srv) (I := fun w' _ => HonestStore w'.idem)
    (fun i => run_spec srv (fun _ => True) (tasks i)) h ?_ ?_ hr).1
  · rintro d s' - hi ⟨change, hc⟩ -
    exact hi.change hc
  · rintro d i o x s' - hi hok ⟨ch, hs⟩ -
    exact ⟨rules_may srv _ o x, hi.perform hok hs⟩

/-- Whatever is replayed was an answer. -/
theorem replays_answers (h : HonestStore w.idem)
    (hr : (machine ed srv).Reaches P (.start w (fun i => (tasks i).run srv)) c) (i : ι) (k : String)
    (body : Bytes) (e : IdemEntry)
    (he : (⟨.beginKey k body, .ok (some e)⟩ : Effect.Event Op Ans) ∈ c.log i) : e.status = 200 := by
  refine Machine.logged (L := fun d => ∀ k body e, d = ⟨.beginKey k body, .ok (some e)⟩ → e.status = 200)
    ?_ hr i _ he k body e rfl
  rintro d j o x s' hd ⟨ch, hs⟩ - k body e heq
  cases heq
  exact (honest_reaches h hd).replay (begin_step hs)

end

end Switchboard.Proofs.Honest
