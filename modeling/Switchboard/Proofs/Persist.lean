import Switchboard.Proofs.Delivery

namespace Switchboard.Proofs.Persist
open Text Gateway Controlplane
open Delivery (keptEvent agentVisit withFate lookup_setFile)
open Gateway.Telemetry (SpoolOp SpoolAns SpoolMetric persist)

/-- The system calls up to the one that makes the file visible. -/
def upToRename : List Stage := [.createTemp, .chmod, .write, .sync, .close, .rename]

/-- Every call before the directory is synced works, so that the file is in its place. -/
def Renamed (fails : Stage → Bool) : Prop := ∀ s ∈ upToRename, fails s = false

/-- The limits leave room for the event. -/
def Admits (spoolBytes : Int) (e : Gateway.Event) (x : Exchange) : Prop :=
  wrap64 (x.metrics .spoolUsed + e.bytes.length) ≤ spoolBytes ∧ x.metrics .spoolCount < 10000

/-- The file in which an event is kept. -/
def fileOf (e : Gateway.Event) (x : Exchange) : Option Bytes := x.spool.lookup (e.id ++ ".json")

/-- The event has been added to those that are counted as dropped. -/
def Dropped (e : Gateway.Event) (x x' : Exchange) : Prop := x'.dropped = x.dropped ++ [e.id]

/-- The gauges have grown by this file. -/
def Counted (b : Bytes) (x x' : Exchange) : Prop :=
  x'.metrics .spoolUsed = x.metrics .spoolUsed + b.length ∧
    x'.metrics .spoolCount = x.metrics .spoolCount + 1

/-- What was counted is what became of the event. -/
def Booked (e : Gateway.Event) (x x' : Exchange) : Prop :=
  (Dropped e x x' ↔ fileOf e x' = none) ∧ (Counted e.bytes x x' ↔ (fileOf e x').isSome)

/-- Nothing but the system calls of `atomicFile` goes wrong. -/
def faulty (fails : Stage → Bool) : SpoolOp → SpoolChance
  | .atomicFile _ _ => atomicChance fails
  | _ => .flag true

theorem atomicChance_of_not_renamed {fails : Stage → Bool} (h : ¬ Renamed fails) :
    atomicChance fails = .flag false := by
  have hany : upToRename.any fails = true := by
    by_contra hnone
    exact h (fun s hs => by simpa using List.any_eq_false.mp (Bool.eq_false_iff.mpr hnone) s hs)
  simp only [upToRename, List.any_cons, List.any_nil] at hany
  unfold atomicChance stages
  simp only [runStages, Stage.apply]
  split_ifs <;> first | rfl | simp_all

theorem atomicChance_of_renamed {fails : Stage → Bool} (h : Renamed fails) :
    atomicChance fails = if fails .openDir || fails .syncDir then .renamed else .flag true := by
  have hfalse (s : Stage) (hs : s ∈ upToRename) : fails s = false := h s hs
  simp only [upToRename, List.mem_cons, List.not_mem_nil, or_false, forall_eq_or_imp, forall_eq] at hfalse
  obtain ⟨h1, h2, h3, h4, h5, h6⟩ := hfalse
  unfold atomicChance stages
  simp only [runStages, Stage.apply, h1, h2, h3, h4, h5, h6, Bool.false_eq_true, if_false]
  cases hopen : fails .openDir
  · cases hsync : fails .syncDir
    · simp
    · simp
  · simp

section
variable {spoolBytes : Int} {e : Gateway.Event} {x y : Exchange} {choose : SpoolOp → SpoolChance}

theorem persist_refused (h : ¬ Admits spoolBytes e x) :
    exchange.exec choose (persist spoolBytes e) x =
      some ((), { x with dropped := x.dropped ++ [e.id] }) := by
  unfold persist
  by_cases hused : spoolBytes < wrap64 (x.metrics .spoolUsed + e.bytes.length)
  · simp [Telemetry.load, Telemetry.drop, Effect.Prog.call, Effect.Driver.exec, Controlplane.exchange, Exchange.perform, hused]
  · have hcount : 10000 ≤ x.metrics .spoolCount := not_lt.mp (fun hlt => h ⟨not_lt.mp hused, hlt⟩)
    simp [Telemetry.load, Telemetry.drop, Effect.Prog.call, Effect.Driver.exec, Controlplane.exchange, Exchange.perform,
      hused, hcount]

theorem persist_written (h : Admits spoolBytes e x)
    (hfile : choose (.atomicFile (e.id ++ ".json") e.bytes) = .flag true) :
    ∃ x', exchange.exec choose (persist spoolBytes e) x = some ((), x') ∧ Counted e.bytes x x' ∧
      x'.dropped = x.dropped ∧ fileOf e x' = some e.bytes := by
  have hused := not_lt.mpr h.1
  have hcount := not_le.mpr h.2
  refine ⟨{ x.put (e.id ++ ".json") e.bytes with
    metrics := Function.update (Function.update x.metrics .spoolUsed (x.metrics .spoolUsed + e.bytes.length))
      .spoolCount (x.metrics .spoolCount + 1) }, ?_, ?_, rfl, ?_⟩
  · unfold persist
    simp [Telemetry.load, Telemetry.atomicFile, Telemetry.add, Effect.Prog.call, Effect.Driver.exec, Controlplane.exchange,
      Exchange.perform, Exchange.put, hused, hcount, hfile]
  · simp [Counted]
  · simp [fileOf, Exchange.put, lookup_setFile]

/-- An error is told, whether the file is in its place or not. -/
theorem persist_failed (renamed : Bool) (h : Admits spoolBytes e x)
    (hfile : choose (.atomicFile (e.id ++ ".json") e.bytes) = if renamed then .renamed else .flag false) :
    ∃ x', exchange.exec choose (persist spoolBytes e) x = some ((), x') ∧ ¬ Counted e.bytes x x' ∧
      Dropped e x x' ∧ fileOf e x' = if renamed then some e.bytes else fileOf e x := by
  have hused := not_lt.mpr h.1
  have hcount := not_le.mpr h.2
  let y := if renamed then x.put (e.id ++ ".json") e.bytes else x
  refine ⟨{ y with
    metrics := Function.update x.metrics .diskErrors (x.metrics .diskErrors + 1)
    dropped := x.dropped ++ [e.id] }, ?_, ?_, rfl, ?_⟩
  · unfold persist
    cases renamed
    all_goals
      simp [Telemetry.load, Telemetry.atomicFile, Telemetry.add, Telemetry.drop, Effect.Prog.call,
        Effect.Driver.exec, Controlplane.exchange, Exchange.perform, Exchange.put, hused, hcount, hfile, y]
  · intro hcounted
    have hgrown : x.metrics .spoolCount = x.metrics .spoolCount + 1 := by simpa using hcounted.2
    omega
  · cases renamed
    · rfl
    · simp [fileOf, Exchange.put, lookup_setFile, y]

end

theorem booked_iff_of_dropped {e : Gateway.Event} {x x' : Exchange} (hdropped : Dropped e x x')
    (hcounted : ¬ Counted e.bytes x x') : Booked e x x' ↔ fileOf e x' = none := by
  constructor
  · intro h
    exact h.1.mp hdropped
  · intro h
    exact ⟨iff_of_true hdropped h, iff_of_false hcounted (by simp [h])⟩

theorem booked_of_counted {e : Gateway.Event} {x x' : Exchange} (hcounted : Counted e.bytes x x')
    (hdropped : x'.dropped = x.dropped) (hfile : fileOf e x' = some e.bytes) : Booked e x x' := by
  constructor
  · apply iff_of_false
    · simp [Dropped, hdropped]
    · simp [hfile]
  · exact iff_of_true hcounted (by simp [hfile])

/-- The account of an event is right if all system calls work. It is wrong if one fails that comes
after the rename. If the event is not kept, only a file that had its name before is in the way. -/
theorem persist_accounts_iff (spoolBytes : Int) (e : Gateway.Event) (x : Exchange) (fails : Stage → Bool) :
    ∃ x', exchange.exec (faulty fails) (persist spoolBytes e) x = some ((), x') ∧
      (Booked e x x' ↔
        (Admits spoolBytes e x ∧ ∀ s, fails s = false) ∨
          (¬ (Admits spoolBytes e x ∧ Renamed fails) ∧ fileOf e x = none)) := by
  by_cases hadmits : Admits spoolBytes e x
  swap
  · have hcounted : ¬ Counted e.bytes x { x with dropped := x.dropped ++ [e.id] } := by
      intro h
      have hgrown : x.metrics .spoolCount = x.metrics .spoolCount + 1 := h.2
      omega
    refine ⟨_, persist_refused hadmits, ?_⟩
    rw [booked_iff_of_dropped (by rw [Dropped]) hcounted]
    simp [hadmits, fileOf]
  by_cases hrenamed : Renamed fails
  swap
  · have hfile : faulty fails (.atomicFile (e.id ++ ".json") e.bytes) = .flag false :=
      atomicChance_of_not_renamed hrenamed
    obtain ⟨x', hexec, hcounted, hdropped, hsame⟩ := persist_failed false hadmits hfile
    refine ⟨x', hexec, ?_⟩
    rw [booked_iff_of_dropped hdropped hcounted, hsame]
    have hsome : ¬ ∀ s, fails s = false := fun h => hrenamed (fun s _ => h s)
    simp [hadmits, hrenamed, hsome]
  have hfile : faulty fails (.atomicFile (e.id ++ ".json") e.bytes) =
      if fails .openDir || fails .syncDir then .renamed else .flag true := atomicChance_of_renamed hrenamed
  by_cases hafter : fails .openDir = false ∧ fails .syncDir = false
  · obtain ⟨x', hexec, hcounted, hdropped, hkept⟩ :=
      persist_written hadmits (by simpa [hafter] using hfile)
    refine ⟨x', hexec, iff_of_true (booked_of_counted hcounted hdropped hkept) (.inl ⟨hadmits, fun s => ?_⟩)⟩
    cases s with
    | openDir => exact hafter.1
    | syncDir => exact hafter.2
    | _ => exact hrenamed _ (by simp [upToRename])
  · have hbad : (fails .openDir || fails .syncDir) = true := by
      by_contra hnone
      simp at hnone
      exact hafter hnone
    rw [if_pos hbad] at hfile
    obtain ⟨x', hexec, hcounted, hdropped, hkept⟩ := persist_failed true hadmits hfile
    refine ⟨x', hexec, ?_⟩
    rw [booked_iff_of_dropped hdropped hcounted, hkept]
    have hsome : ¬ ∀ s, fails s = false := fun h => hafter ⟨h _, h _⟩
    simp [hadmits, hrenamed, hsome]

/-- What is told and what is there after the two visits to the spool. -/
def droppedAndDelivered (x' x'' : Exchange) : Bool :=
  x'.dropped == [keptEvent.id] && fileOf keptEvent x' == some keptEvent.bytes &&
    x'.metrics .spoolUsed == 0 && x''.table.rows.map (fun r => r.id) == [keptEvent.id] &&
    x''.metrics .spoolUsed == -keptEvent.bytes.length && x''.metrics .spoolCount == -1

theorem unsynced_runs :
    (exchange.exec (faulty (fun s => s == .syncDir)) (persist 1000000 keptEvent) {}).any (fun p =>
      (exchange.exec (withFate (.served agentVisit)) Telemetry.deliver p.2).any (fun q =>
        droppedAndDelivered p.2 q.2)) = true := by
  decide +kernel

/-- The directory cannot be synced: the event is counted as dropped, its file is there, and the
next delivery sends it and takes from the gauges what was never added. -/
theorem dropped_event_is_delivered :
    ∃ x' x'', exchange.exec (faulty (fun s => s == .syncDir)) (persist 1000000 keptEvent) {} = some ((), x') ∧
      exchange.exec (withFate (.served agentVisit)) Telemetry.deliver x' = some ((), x'') ∧
      x'.dropped = [keptEvent.id] ∧ fileOf keptEvent x' = some keptEvent.bytes ∧
      x'.metrics .spoolUsed = 0 ∧ x''.table.rows.map (fun r => r.id) = [keptEvent.id] ∧
      x''.metrics .spoolUsed = -keptEvent.bytes.length ∧ x''.metrics .spoolCount = -1 := by
  obtain ⟨⟨_, x'⟩, hpersist, hrest⟩ := (Option.any_eq_true _ _).mp unsynced_runs
  obtain ⟨⟨_, x''⟩, hdeliver, hboth⟩ := (Option.any_eq_true _ _).mp hrest
  simp only [droppedAndDelivered, Bool.and_eq_true, beq_iff_eq, and_assoc] at hboth
  exact ⟨x', x'', hpersist, hdeliver, hboth⟩

end Switchboard.Proofs.Persist
