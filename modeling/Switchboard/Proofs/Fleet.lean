import Switchboard.Controlplane.Health
import Switchboard.Gateway.Fleet
import Switchboard.Proofs.NoReplay

namespace Switchboard.Proofs.Fleet
open Text Gateway

/-- An entry that asks for a hint about the provider. -/
def asks (p : String) (u : UnhealthyEntry) : Bool := u.provider == p && decide (0 < u.seconds)

/-- The largest number of seconds any entry asks for. -/
def largest (l : List UnhealthyEntry) (p : String) : Option Int :=
  ((l.filter (asks p)).map UnhealthyEntry.seconds).max?

/-- How long the hint of an entry lasts, if it is the one that is kept. -/
def granted (u : UnhealthyEntry) : Int := min (wrap64 (u.seconds * second)) fleetHintMax

/-- When the hint about a provider stops to apply. -/
def hint (w : World) (p : String) : Option Int := w.fleet.bind (fun f => f.seen.lookup p)

theorem lookup_inserted (f : Int → Int) (es : List (Sigma fun _ : String => Int)) (p : String) :
    AList.lookup p (es.foldr (fun e m => AList.insert e.1 (f e.2) m) (∅ : Map String Int)) =
      (es.dlookup p).map f := by
  induction es with
  | nil => rfl
  | cons e es ih =>
    rw [List.foldr_cons]
    by_cases hp : p = e.1
    · subst hp
      rw [AList.lookup_insert, List.dlookup_cons_eq]
      rfl
    · rw [AList.lookup_insert_ne hp, ih, List.dlookup_cons_ne _ _ hp]

theorem lookup_seen (now : Int) (reports : Map String Int) (max : Int) (p : String) :
    (FleetHealth.apply now reports max).seen.lookup p =
      (reports.lookup p).map (fun d => now + min d max) :=
  lookup_inserted (fun d => now + min d max) reports.entries p

/-- The last entry that asks is the one that is kept. -/
theorem lookup_fleetHints (l : List UnhealthyEntry) (p : String) :
    (fleetHints l).lookup p =
      (l.filter (asks p)).getLast?.map (fun u => wrap64 (u.seconds * second)) := by
  induction l using List.reverseRecOn with
  | nil => rfl
  | append_singleton l u ih =>
    have hstep : fleetHints (l ++ [u]) = if u.seconds ≤ 0 then fleetHints l
        else (fleetHints l).insert u.provider (wrap64 (u.seconds * second)) := by
      unfold fleetHints
      rw [List.foldl_append, List.foldl_cons, List.foldl_nil]
    rw [hstep, List.filter_append]
    by_cases hpos : u.seconds ≤ 0
    · have hquiet : asks p u = false := by simp [asks, hpos]
      rw [if_pos hpos, ih, List.filter_singleton, hquiet, cond_false, List.append_nil]
    · rw [if_neg hpos]
      by_cases hp : p = u.provider
      · have hasks : asks p u = true := by simp [asks, hp]; omega
        rw [List.filter_singleton, hasks, cond_true, List.getLast?_concat, hp, AList.lookup_insert]
        rfl
      · have hquiet : asks p u = false := by simp [asks, Ne.symm hp]
        rw [AList.lookup_insert_ne hp, ih, List.filter_singleton, hquiet, cond_false,
          List.append_nil]

theorem hint_answer {w : World} (hon : w.fleet.isSome = true) (l : List UnhealthyEntry) (p : String) :
    hint (fleetAnswer w ⟨200, some l⟩).1 p =
      (l.filter (asks p)).getLast?.map (fun u => w.now + granted u) := by
  obtain ⟨f, hf⟩ := Option.isSome_iff_exists.mp hon
  have hfleet : (fleetAnswer w ⟨200, some l⟩).1.fleet =
      some (FleetHealth.apply w.now (fleetHints l) fleetHintMax) := by
    simp [fleetAnswer, hf]
  rw [hint, hfleet, Option.bind_some, lookup_seen, lookup_fleetHints, Option.map_map]
  rfl

theorem asks_iff {p : String} {u : UnhealthyEntry} :
    asks p u = true ↔ u.provider = p ∧ 0 < u.seconds := by
  simp [asks]

/-- Below the bound nothing overflows. -/
theorem granted_of_short {u : UnhealthyEntry} (hpos : 0 < u.seconds) (hshort : u.seconds < 45) :
    granted u = u.seconds * second := by
  unfold granted fleetHintMax second
  rw [wrap64_of_fits (by omega) (by omega)]
  omega

theorem largest_eq_some {l : List UnhealthyEntry} {p : String} {s : Int} (h : largest l p = some s) :
    (∃ v ∈ l, asks p v = true ∧ v.seconds = s) ∧ ∀ v ∈ l, asks p v = true → v.seconds ≤ s := by
  obtain ⟨hmem, hmax⟩ := List.max?_eq_some_iff.mp h
  obtain ⟨v, hv, hs⟩ := List.mem_map.mp hmem
  obtain ⟨hv, hasks⟩ := List.mem_filter.mp hv
  refine ⟨⟨v, hv, hasks, hs⟩, fun v hv hasks => ?_⟩
  exact hmax _ (List.mem_map_of_mem (List.mem_filter.mpr ⟨hv, hasks⟩))

theorem largest_of_asks {l : List UnhealthyEntry} {p : String} {u : UnhealthyEntry} (hu : u ∈ l)
    (h : asks p u = true) : ∃ s, largest l p = some s := by
  apply Option.ne_none_iff_exists'.mp
  intro hnone
  have hnil := List.map_eq_nil_iff.mp (List.max?_eq_none_iff.mp hnone)
  exact List.filter_eq_nil_iff.mp hnil u hu h

/-- Whatever entry asks is the last one in some order. -/
theorem hint_last {w : World} (hon : w.fleet.isSome = true) {l : List UnhealthyEntry}
    {u : UnhealthyEntry} (hu : u ∈ l) (hpos : 0 < u.seconds) :
    ∃ l', l'.Perm l ∧
      hint (fleetAnswer w ⟨200, some l'⟩).1 u.provider = some (w.now + granted u) := by
  have hasks : asks u.provider u = true := asks_iff.mpr ⟨rfl, hpos⟩
  refine ⟨l.erase u ++ [u], ?_, ?_⟩
  · exact (List.perm_append_comm.trans (List.perm_cons_erase hu).symm)
  · rw [hint_answer hon, List.filter_append, List.filter_singleton, hasks, cond_true,
      List.getLast?_concat]
    rfl

/-- In every order a provider is avoided for as long as the largest of its entries asks,
up to the bound, exactly when each entry grants what every other of its provider asks. -/
theorem fleet_hints_orderless_iff (w : World) (hon : w.fleet.isSome = true)
    (l : List UnhealthyEntry) :
    (∀ l', l'.Perm l → ∀ p, hint (fleetAnswer w ⟨200, some l'⟩).1 p =
        (largest l p).map (fun s => w.now + min s 45 * second)) ↔
      ∀ u ∈ l, ∀ v ∈ l, 0 < u.seconds → 0 < v.seconds → u.provider = v.provider →
        granted u = min v.seconds 45 * second := by
  constructor
  · intro h u hu v hv hupos hvpos hsame
    have hkept : ∀ x ∈ l, 0 < x.seconds → x.provider = v.provider →
        ∀ s, largest l v.provider = some s → granted x = min s 45 * second := by
      intro x hx hpos hp s hs
      obtain ⟨l', hperm, hhint⟩ := hint_last hon hx hpos
      rw [h l' hperm, hp, hs, Option.map_some, Option.some.injEq] at hhint
      omega
    obtain ⟨s, hs⟩ := largest_of_asks hv (asks_iff.mpr ⟨rfl, hvpos⟩)
    have hle := (largest_eq_some hs).2 v hv (asks_iff.mpr ⟨rfl, hvpos⟩)
    have hgranted := hkept u hu hupos hsame s hs
    have hgranted' := hkept v hv hvpos rfl s hs
    rw [hgranted]
    by_cases hshort : v.seconds < 45
    · rw [granted_of_short hvpos hshort] at hgranted'
      unfold second at *
      omega
    · unfold second
      omega
  · intro h l' hperm p
    rw [hint_answer hon]
    cases hlast : (l'.filter (asks p)).getLast? with
    | none =>
      have hfiltered := hperm.filter (asks p)
      rw [List.getLast?_eq_none_iff.mp hlast] at hfiltered
      rw [largest, List.nil_perm.mp hfiltered]
      rfl
    | some u =>
      obtain ⟨hu, hasks⟩ := List.mem_filter.mp (List.mem_of_getLast? hlast)
      have hu' := hperm.mem_iff.mp hu
      obtain ⟨s, hs⟩ := largest_of_asks hu' hasks
      obtain ⟨v, hv, hvasks, rfl⟩ := (largest_eq_some hs).1
      obtain ⟨hup, hupos⟩ := asks_iff.mp hasks
      obtain ⟨hvp, hvpos⟩ := asks_iff.mp hvasks
      rw [hs, Option.map_some, Option.map_some, h u hu' v hv hupos hvpos (hup.trans hvp.symm)]

/-- A server that listens to its fleet. -/
def listening : World :=
  { NoReplay.plainWorld NoReplay.plainConfig with fleet := some newFleetHealth }

theorem single_report_orderless :
    listening.fleet.isSome = true ∧
      ((∀ l', l'.Perm [⟨"openai", "account", 20⟩] → ∀ p,
          hint (fleetAnswer listening ⟨200, some l'⟩).1 p =
            (largest [⟨"openai", "account", 20⟩] p).map
              (fun s => listening.now + min s 45 * second)) ↔
        ∀ u ∈ [(⟨"openai", "account", 20⟩ : UnhealthyEntry)],
          ∀ v ∈ [(⟨"openai", "account", 20⟩ : UnhealthyEntry)],
            0 < u.seconds → 0 < v.seconds → u.provider = v.provider →
              granted u = min v.seconds 45 * second) :=
  ⟨rfl, fleet_hints_orderless_iff listening rfl _⟩

/-- One instance cannot pay for two seconds more; two others see errors for forty. -/
def reported : Controlplane.HealthTable :=
  [⟨"a", "openai", .account, 0, 2000000⟩, ⟨"b", "openai", .degraded, 0, 40000000⟩,
    ⟨"c", "openai", .degraded, 0, 40000000⟩]

/-- What a gateway reads of the control plane's answer. -/
def told (t : Controlplane.HealthTable) : List UnhealthyEntry :=
  (Controlplane.unhealthyOf 0 (t.select 0)).map (fun u => ⟨u.provider, u.fault.text, u.seconds⟩)

/-- The provider is avoided for two seconds or for forty, as the query orders its groups, and
an entry of more seconds than fit is no hint at all. -/
theorem hints_depend_on_order :
    (told reported.reverse).Perm (told reported) ∧
      hint (fleetAnswer listening ⟨200, some (told reported)⟩).1 "openai" = some (40 * second) ∧
      hint (fleetAnswer listening ⟨200, some (told reported.reverse)⟩).1 "openai" =
        some (2 * second) ∧
      hint (fleetAnswer listening ⟨200, some [⟨"openai", "account", 9223372037⟩]⟩).1 "openai" =
        some (-9223372036709551616) := by
  decide

end Switchboard.Proofs.Fleet
