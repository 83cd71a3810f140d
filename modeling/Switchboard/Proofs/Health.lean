import Switchboard.Controlplane.Health

namespace Switchboard.Proofs.Health
open Text Gateway Controlplane

/-- A call by an agent with a valid body. -/
structure Valid (c : HealthCall) (body : HealthSync) : Prop where
  arrives : c.slow = false
  agent : c.principal = some .agent
  size : c.body.length ≤ 65536
  shape : (jsonLoads c.body).bind healthSyncOf = some body

/-- What a call says, if it is one that counts. -/
def statement (c : HealthCall) : Option HealthSync :=
  if c.slow = false ∧ c.principal = some .agent ∧ c.body.length ≤ 65536 then
    (jsonLoads c.body).bind healthSyncOf
  else none

/-- The reports of a call. -/
def reports (c : HealthCall) : List HealthRow :=
  match statement c with
  | some body => body.reports.map (HealthReport.row body.instanceID c.now)
  | none => []

/-- All reports so far, in the order in which they were made. -/
def said (calls : List HealthCall) : List HealthRow := calls.flatMap reports

/-- The last report of an instance about a provider. -/
def latest (rs : List HealthRow) (instanceID provider : String) : Option HealthRow :=
  rs.reverse.find? (HealthRow.about instanceID provider)

/-- The latest report of the instance about the provider says so, and holds still. -/
def Reports (rs : List HealthRow) (now : Int) (instanceID provider : String)
    (fault : HealthFault) : Prop :=
  ∃ r, latest rs instanceID provider = some r ∧ r.fault = fault ∧ now < r.expiresAt

/-- The answer to a call after those before it. -/
structure Corroborated (driver : Driver) (calls : List HealthCall) (c : HealthCall)
    (us : List Unhealthy) : Prop where
  answer : (serveHealth driver c (healthTable driver calls)).1 = jsonResponse 200 (unhealthyJson us)
  account : ∀ p, (∃ u ∈ us, u.provider = p ∧ u.fault = .account) ↔
    ∃ i, Reports (said (calls ++ [c])) c.now i p .account
  degraded : ∀ p, (∃ u ∈ us, u.provider = p ∧ u.fault = .degraded) ↔
    ∃ i j, i ≠ j ∧ Reports (said (calls ++ [c])) c.now i p .degraded ∧
      Reports (said (calls ++ [c])) c.now j p .degraded

theorem mem_upsert {t : HealthTable} {r x : HealthRow} :
    x ∈ t.upsert r ↔ x = r ∨ x ∈ t ∧ x.about r.instanceID r.provider = false := by
  unfold HealthTable.upsert
  split
  · rename_i hany
    obtain ⟨old, hold, habout⟩ := List.any_eq_true.mp hany
    rw [List.mem_map]
    constructor
    · intro h
      obtain ⟨y, hy, rfl⟩ := h
      cases hya : y.about r.instanceID r.provider with
      | true => exact .inl (if_pos rfl)
      | false => exact .inr ⟨by simpa using hy, by simpa using hya⟩
    · intro h
      rcases h with rfl | ⟨hx, hxa⟩
      · exact ⟨old, hold, if_pos habout⟩
      · exact ⟨x, hx, if_neg (by simp [hxa])⟩
  · rename_i hnone
    rw [List.mem_append, List.mem_singleton]
    constructor
    · intro h
      rcases h with hx | rfl
      · refine .inr ⟨hx, ?_⟩
        rw [← Bool.not_eq_true]
        exact fun h => hnone (List.any_eq_true.mpr ⟨x, hx, h⟩)
      · exact .inl rfl
    · intro h
      rcases h with rfl | ⟨hx, -⟩
      · exact .inr rfl
      · exact .inl hx

theorem about_self (r : HealthRow) : r.about r.instanceID r.provider = true := by
  simp [HealthRow.about]

theorem latest_about {rs : List HealthRow} {i p : String} {r : HealthRow}
    (h : latest rs i p = some r) : r.instanceID = i ∧ r.provider = p := by
  have habout := List.find?_some h
  simpa [HealthRow.about] using habout

theorem latest_append (rs : List HealthRow) (r : HealthRow) (i p : String) :
    latest (rs ++ [r]) i p = if r.about i p then some r else latest rs i p := by
  unfold latest
  rw [List.reverse_append, List.reverse_singleton, List.singleton_append, List.find?_cons]
  cases r.about i p <;> rfl

/-- The table has, of the reports that hold at a time and later, the latest of each instance
about each provider. -/
def Tracks (now : Int) (t : HealthTable) (rs : List HealthRow) : Prop :=
  ∀ r, now < r.expiresAt → (r ∈ t ↔ latest rs r.instanceID r.provider = some r)

theorem Tracks.later {now now' : Int} {t : HealthTable} {rs : List HealthRow} (h : Tracks now t rs)
    (hle : now ≤ now') : Tracks now' t rs :=
  fun r hr => h r (lt_of_le_of_lt hle hr)

theorem Tracks.upsert {now : Int} {t : HealthTable} {rs : List HealthRow} (h : Tracks now t rs)
    (r : HealthRow) : Tracks now (t.upsert r) (rs ++ [r]) := by
  intro x hx
  rw [mem_upsert, latest_append]
  cases habout : r.about x.instanceID x.provider with
  | true =>
    rw [if_pos rfl]
    have hkey : x.about r.instanceID r.provider = true := by
      simp only [HealthRow.about, Bool.and_eq_true, beq_iff_eq] at habout ⊢
      exact ⟨habout.1.symm, habout.2.symm⟩
    rw [hkey]
    constructor
    · intro hmem
      rcases hmem with rfl | ⟨-, hfalse⟩
      · rfl
      · cases hfalse
    · exact fun heq => .inl (Option.some.inj heq).symm
  | false =>
    rw [if_neg Bool.false_ne_true]
    have hkey : x.about r.instanceID r.provider = false := by
      rw [← Bool.not_eq_true] at habout ⊢
      intro hsame
      refine habout ?_
      simp only [HealthRow.about, Bool.and_eq_true, beq_iff_eq] at hsame ⊢
      exact ⟨hsame.1.symm, hsame.2.symm⟩
    rw [hkey]
    constructor
    · intro hmem
      rcases hmem with rfl | ⟨hmem, -⟩
      · rw [about_self] at habout
        cases habout
      · exact (h x hx).mp hmem
    · exact fun hlatest => .inr ⟨(h x hx).mpr hlatest, rfl⟩

theorem Tracks.upserts {now : Int} {t : HealthTable} {rs : List HealthRow} (h : Tracks now t rs)
    (new : List HealthRow) : Tracks now (new.foldl HealthTable.upsert t) (rs ++ new) := by
  induction new generalizing t rs with
  | nil => simpa using h
  | cons r new ih =>
    have hrest := ih (h.upsert r)
    rwa [List.append_assoc, List.singleton_append] at hrest

theorem Tracks.sweep {now : Int} {t : HealthTable} {rs : List HealthRow} (h : Tracks now t rs) :
    Tracks now (t.sweep now) rs := by
  intro r hr
  rw [HealthTable.sweep, List.mem_filter]
  simp only [not_le.mpr hr, decide_false, Bool.not_false, and_true]
  exact h r hr

/-- The table a call leaves behind, when the handler can read its rows. -/
theorem serveHealth_statement {driver : Driver} (hd : driver.fetchall = true) (c : HealthCall)
    (t : HealthTable) {body : HealthSync} (h : statement c = some body) :
    serveHealth driver c t =
      let rows := ((reports c).foldl HealthTable.upsert t).sweep c.now
      (jsonResponse 200 (unhealthyJson (unhealthyOf c.wall (rows.select c.now))), rows) := by
  have hreports : reports c = body.reports.map (HealthReport.row body.instanceID c.now) := by
    rw [reports, h]
  unfold statement at h
  split at h
  · rename_i hok
    obtain ⟨hslow, hagent, hsize⟩ := hok
    obtain ⟨raw, hraw, hshape⟩ := Option.bind_eq_some_iff.mp h
    simp only [serveHealth, guarded, hslow, hagent, not_lt.mpr hsize, hraw, hshape, healthSync, hd,
      hreports, Bool.false_eq_true, if_false, if_true, ne_eq, not_true_eq_false]
  · cases h

theorem serveHealth_other {driver : Driver} (c : HealthCall) (t : HealthTable)
    (h : statement c = none) : (serveHealth driver c t).2 = t := by
  unfold serveHealth guarded
  split
  · rfl
  · rename_i hslow
    split
    · rfl
    · rename_i hsize
      split
      · rfl
      · rename_i raw hraw
        dsimp only
        split
        · rfl
        · rename_i role hrole
          split
          · rfl
          · rename_i body hshape
            unfold healthSync
            by_cases hagent : role = .agent
            · have hsome : statement c = some body := by
                rw [statement, if_pos ⟨by simpa using hslow, hagent ▸ hrole, not_lt.mp hsize⟩, hraw]
                exact hshape
              rw [h] at hsome
              cases hsome
            · rw [if_pos hagent]

theorem Tracks.call {driver : Driver} (hd : driver.fetchall = true) {now : Int} {t : HealthTable}
    {rs : List HealthRow} (h : Tracks now t rs) {c : HealthCall} (hle : now ≤ c.now) :
    Tracks c.now (serveHealth driver c t).2 (rs ++ reports c) := by
  cases hs : statement c with
  | none =>
    have hnone : reports c = [] := by rw [reports, hs]
    rw [serveHealth_other c t hs, hnone, List.append_nil]
    exact h.later hle
  | some body =>
    rw [serveHealth_statement hd c t hs]
    exact ((h.later hle).upserts _).sweep

/-- The times of the calls do not go back. -/
def Nondecreasing (calls : List HealthCall) : Prop := calls.Pairwise (fun c c' => c.now ≤ c'.now)

theorem healthTable_append (driver : Driver) (calls : List HealthCall) (c : HealthCall) :
    healthTable driver (calls ++ [c]) = (serveHealth driver c (healthTable driver calls)).2 := by
  rw [healthTable, List.foldl_append]
  rfl

/-- After any calls the table tracks what was said, from the time of the last call on. -/
theorem tracks_calls {driver : Driver} (hd : driver.fetchall = true) (calls : List HealthCall)
    (h : Nondecreasing calls) : ∀ now, (∀ c ∈ calls, c.now ≤ now) →
      Tracks now (healthTable driver calls) (said calls) := by
  induction calls using List.reverseRecOn with
  | nil =>
    intro now _ r _
    exact ⟨fun hr => (nomatch hr), fun hr => (nomatch hr)⟩
  | append_singleton calls c ih =>
    intro now hnow
    obtain ⟨hbefore, -, hlast⟩ := List.pairwise_append.mp h
    have htracks := ih hbefore c.now (fun x hx => hlast x hx c (List.mem_singleton_self c))
    rw [healthTable_append, said, List.flatMap_append, List.flatMap_singleton]
    refine (htracks.call hd le_rfl).later (hnow c ?_)
    exact List.mem_append_right _ (List.mem_singleton_self c)

/-- A group of the query is a provider and a fault that some row has. -/
theorem mem_select {t : HealthTable} {now : Int} {p : String} {f : HealthFault} :
    (∃ g ∈ t.select now, g.provider = p ∧ g.fault = f) ↔
      ∃ r ∈ t, now < r.expiresAt ∧ r.provider = p ∧ r.fault = f := by
  simp only [HealthTable.select, List.mem_map, List.mem_dedup, List.mem_filter, decide_eq_true_eq]
  constructor
  · intro h
    obtain ⟨g, ⟨k, ⟨r, ⟨hr, hlive⟩, rfl⟩, rfl⟩, hp, hf⟩ := h
    exact ⟨r, hr, hlive, hp, hf⟩
  · intro h
    obtain ⟨r, hr, hlive, rfl, rfl⟩ := h
    exact ⟨_, ⟨_, ⟨r, ⟨hr, hlive⟩, rfl⟩, rfl⟩, rfl, rfl⟩

theorem two_le_dedup {α : Type} [DecidableEq α] {l : List α} :
    2 ≤ l.dedup.length ↔ ∃ a ∈ l, ∃ b ∈ l, a ≠ b := by
  rw [← List.card_toFinset]
  have h := @Finset.one_lt_card _ l.toFinset
  simp only [List.mem_toFinset] at h
  exact h

/-- A group counts the instances that have such a row. -/
theorem select_instances {t : HealthTable} {now : Int} {g : HealthGroup} (h : g ∈ t.select now) :
    2 ≤ g.instances ↔ ∃ r ∈ t, ∃ r' ∈ t, r.instanceID ≠ r'.instanceID ∧
      (now < r.expiresAt ∧ r.provider = g.provider ∧ r.fault = g.fault) ∧
      (now < r'.expiresAt ∧ r'.provider = g.provider ∧ r'.fault = g.fault) := by
  simp only [HealthTable.select, List.mem_map] at h
  obtain ⟨k, -, rfl⟩ := h
  simp only [two_le_dedup, List.mem_map, List.mem_filter, decide_eq_true_eq]
  constructor
  · intro h
    obtain ⟨a, ⟨r, ⟨⟨hr, hlive⟩, hk⟩, rfl⟩, b, ⟨r', ⟨⟨hr', hlive'⟩, hk'⟩, rfl⟩, hne⟩ := h
    exact ⟨r, hr, r', hr', hne, ⟨hlive, congrArg Prod.fst hk, congrArg Prod.snd hk⟩,
      hlive', congrArg Prod.fst hk', congrArg Prod.snd hk'⟩
  · intro h
    obtain ⟨r, hr, r', hr', hne, ⟨hlive, hp, hf⟩, hlive', hp', hf'⟩ := h
    exact ⟨_, ⟨r, ⟨⟨hr, hlive⟩, Prod.ext hp hf⟩, rfl⟩, _, ⟨r', ⟨⟨hr', hlive'⟩, Prod.ext hp' hf'⟩, rfl⟩, hne⟩

/-- What is told is the groups, but for a degradation that one instance alone saw. -/
theorem mem_unhealthyOf {wall : Int} {gs : List HealthGroup} {p : String} {f : HealthFault} :
    (∃ u ∈ unhealthyOf wall gs, u.provider = p ∧ u.fault = f) ↔
      ∃ g ∈ gs, g.provider = p ∧ g.fault = f ∧ (f = .degraded → 2 ≤ g.instances) := by
  simp only [unhealthyOf, List.mem_map, List.mem_filter]
  constructor
  · intro h
    obtain ⟨u, ⟨g, ⟨hg, htold⟩, rfl⟩, rfl, rfl⟩ := h
    refine ⟨g, hg, rfl, rfl, fun hdegraded => ?_⟩
    have hfault : g.fault = .degraded := hdegraded
    rw [hfault] at htold
    by_contra hfew
    rw [decide_eq_true (not_le.mp hfew)] at htold
    cases htold
  · intro h
    obtain ⟨g, hg, rfl, rfl, htold⟩ := h
    refine ⟨_, ⟨g, ⟨hg, ?_⟩, rfl⟩, rfl, rfl⟩
    cases hf : g.fault with
    | account => rfl
    | degraded =>
      rw [decide_eq_false (not_lt.mpr (htold hf))]
      rfl

/-- A row that holds is a latest report that holds. -/
theorem Tracks.reports_iff {now : Int} {t : HealthTable} {rs : List HealthRow} (h : Tracks now t rs)
    {i p : String} {f : HealthFault} : Reports rs now i p f ↔
      ∃ r ∈ t, now < r.expiresAt ∧ r.instanceID = i ∧ r.provider = p ∧ r.fault = f := by
  constructor
  · intro hreports
    obtain ⟨r, hlatest, hfault, hlive⟩ := hreports
    obtain ⟨rfl, rfl⟩ := latest_about hlatest
    exact ⟨r, (h r hlive).mpr hlatest, hlive, rfl, rfl, hfault⟩
  · intro hrow
    obtain ⟨r, hr, hlive, rfl, rfl, hfault⟩ := hrow
    exact ⟨r, (h r hlive).mp hr, hfault, hlive⟩

theorem told_account {now wall : Int} {t : HealthTable} {rs : List HealthRow} (h : Tracks now t rs)
    (p : String) : (∃ u ∈ unhealthyOf wall (t.select now), u.provider = p ∧ u.fault = .account) ↔
      ∃ i, Reports rs now i p .account := by
  rw [mem_unhealthyOf]
  constructor
  · intro htold
    obtain ⟨g, hg, hp, hf, -⟩ := htold
    obtain ⟨r, hr, hlive, hrp, hrf⟩ := mem_select.mp ⟨g, hg, hp, hf⟩
    exact ⟨r.instanceID, h.reports_iff.mpr ⟨r, hr, hlive, rfl, hrp, hrf⟩⟩
  · intro hreports
    obtain ⟨i, hi⟩ := hreports
    obtain ⟨r, hr, hlive, -, hrp, hrf⟩ := h.reports_iff.mp hi
    obtain ⟨g, hg, hp, hf⟩ := mem_select.mpr ⟨r, hr, hlive, hrp, hrf⟩
    exact ⟨g, hg, hp, hf, fun hdegraded => nomatch hdegraded⟩

theorem told_degraded {now wall : Int} {t : HealthTable} {rs : List HealthRow} (h : Tracks now t rs)
    (p : String) : (∃ u ∈ unhealthyOf wall (t.select now), u.provider = p ∧ u.fault = .degraded) ↔
      ∃ i j, i ≠ j ∧ Reports rs now i p .degraded ∧ Reports rs now j p .degraded := by
  rw [mem_unhealthyOf]
  constructor
  · intro htold
    obtain ⟨g, hg, rfl, hf, htwo⟩ := htold
    obtain ⟨r, hr, r', hr', hne, ⟨hlive, hp, hrf⟩, hlive', hp', hrf'⟩ :=
      (select_instances hg).mp (htwo rfl)
    rw [hf] at hrf hrf'
    exact ⟨r.instanceID, r'.instanceID, hne, h.reports_iff.mpr ⟨r, hr, hlive, rfl, hp, hrf⟩,
      h.reports_iff.mpr ⟨r', hr', hlive', rfl, hp', hrf'⟩⟩
  · intro hreports
    obtain ⟨i, j, hne, hi, hj⟩ := hreports
    obtain ⟨r, hr, hlive, rfl, hrp, hrf⟩ := h.reports_iff.mp hi
    obtain ⟨r', hr', hlive', rfl, hrp', hrf'⟩ := h.reports_iff.mp hj
    obtain ⟨g, hg, rfl, hf⟩ := mem_select.mpr ⟨r, hr, hlive, hrp, hrf⟩
    refine ⟨g, hg, rfl, hf, fun _ => (select_instances hg).mpr ?_⟩
    rw [hf]
    exact ⟨r, hr, r', hr', hne, ⟨hlive, hrp, hrf⟩, hlive', hrp', hrf'⟩

theorem Valid.statement {c : HealthCall} {body : HealthSync} (h : Valid c body) :
    statement c = some body := by
  rw [Health.statement, if_pos ⟨h.arrives, h.agent, h.size⟩]
  exact h.shape

/-- With rows to read, every call of an agent is answered, and the answer is corroborated. -/
theorem corroborated_of_fetchall {driver : Driver} (hd : driver.fetchall = true)
    {calls : List HealthCall} {c : HealthCall} (h : Nondecreasing (calls ++ [c])) {body : HealthSync}
    (hc : Valid c body) : ∃ us, Corroborated driver calls c us := by
  obtain ⟨hbefore, -, hlast⟩ := List.pairwise_append.mp h
  have htracks := tracks_calls hd calls hbefore c.now
    (fun x hx => hlast x hx c (List.mem_singleton_self c))
  have hsaid : said (calls ++ [c]) = said calls ++ reports c := by
    rw [said, List.flatMap_append, List.flatMap_singleton]
    rfl
  have hserve := serveHealth_statement hd c (healthTable driver calls) hc.statement
  have hafter := (htracks.upserts (reports c)).sweep
  rw [← hsaid] at hafter
  exact ⟨_, by rw [hserve], told_account hafter, told_degraded hafter⟩

/-- Without them a call of an agent fails, whatever it says, and leaves nothing behind. -/
theorem serveHealth_fails {driver : Driver} (hd : driver.fetchall = false) {c : HealthCall}
    {body : HealthSync} (hc : Valid c body) (t : HealthTable) :
    serveHealth driver c t = (detail 500 "internal error", t) := by
  obtain ⟨raw, hraw, hshape⟩ := Option.bind_eq_some_iff.mp hc.shape
  simp only [serveHealth, guarded, hc.arrives, hc.agent, not_lt.mpr hc.size, hraw, hshape, healthSync, hd,
    Bool.false_eq_true, if_false, ne_eq, not_true_eq_false]

/-- A gateway that has nothing to report. -/
def quietCall : HealthCall where
  principal := some .agent
  now := 0
  wall := 0
  body := ascii "\x7b\"instance_id\":\"0123456789abcdef\"\x7d"

theorem quietCall_valid : Valid quietCall ⟨"0123456789abcdef", []⟩ :=
  ⟨rfl, rfl, by decide +kernel, by decide +kernel⟩

/-- The fleet's health is what the instances corroborate, at every valid call of every history,
exactly when a connection of the driver has the rows of its last statement. -/
theorem fleet_health_corroborated_iff (driver : Driver) :
    (∀ (calls : List HealthCall) (c : HealthCall), Nondecreasing (calls ++ [c]) →
        ∀ body, Valid c body → ∃ us, Corroborated driver calls c us) ↔
      driver.fetchall = true := by
  constructor
  · intro h
    by_contra hd
    obtain ⟨us, hus⟩ := h [] quietCall (List.pairwise_singleton _ _) _ quietCall_valid
    have hanswer := hus.answer
    rw [serveHealth_fails (Bool.not_eq_true _ ▸ hd) quietCall_valid] at hanswer
    have hstatus : (500 : Int) = 200 := congrArg Response.status hanswer
    exact absurd hstatus (by decide)
  · intro hd calls c h body hc
    exact corroborated_of_fetchall hd h hc

/-- With the driver there is, an agent that only listens is answered 500. -/
theorem health_sync_always_fails :
    (∀ c body t, Valid c body → serveHealth psycopg c t = (detail 500 "internal error", t)) ∧
      (serveHealth psycopg quietCall []).1.status = 500 :=
  ⟨fun _ _ t hc => serveHealth_fails rfl hc t, by decide +kernel⟩

end Switchboard.Proofs.Health
