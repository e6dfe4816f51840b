/-
# Proofs.ReadSteps -- the ways a read of a cache can go

Reads of a cache are taken apart here, once for each function, into the ways they can go.  A
case keeps all that was found out on its way: what the cache knew, what the table was asked
after which events, and how it answered.  Whatever is true of reads is shown case by case from
these.

* `StoreCache.ask_of_quiet`: what becomes of a read that is sent.
* `StoreCache.consult_goes`, `StoreCache.requestSlice_goes`, `StoreCache.gather_goes` and
  `StoreCache.requestSlices_goes`.
-/
import PropertyGraph.Cache.StoreCache

namespace PropertyGraph

set_option autoImplicit false

namespace ReadMonitor

/-- What becomes of a read: the monitor may refuse it, and else the table may. -/
def verdict (m : ReadMonitor) (refused : Option Fault) : Option Fault :=
  if m.failing = 0 then refused else some (.backend m.failure (failureText m.failure))

theorem verdict_none_iff {m : ReadMonitor} : m.verdict none = none ↔ m.failing = 0 := by
  by_cases willing : m.failing = 0 <;> simp [verdict, willing]

theorem log_record (m : ReadMonitor) (read : TableRead) :
    (m.record read).2.log = m.log ++ [read] := by
  unfold record
  split <;> rfl

theorem keysRead_record (m : ReadMonitor) (read : TableRead) :
    (m.record read).2.keysRead = m.keysRead + UInt64.ofNat read.keys.length := by
  unfold record
  split <;> rfl

theorem failing_record {m : ReadMonitor} (willing : m.failing = 0) (read : TableRead) :
    (m.record read).2.failing = 0 := by
  simp [record, willing]

end ReadMonitor

namespace StoreCache

/-- A read is noted, and that is all, unless something interrupts. -/
theorem ask_of_quiet {α : Type} {c : StoreCache} (quiet : c.interruption = none)
    (refused : Option Fault) (read : TableRead) (answer : α) :
    c.ask refused read answer =
      (unlessRefused (c.monitor.verdict refused) answer,
        { c with monitor := (c.monitor.record read).2 }) := by
  unfold ask ReadMonitor.verdict ReadMonitor.record
  simp only [interrupt, quiet]
  split <;> rfl

theorem readPending_of_quiet {c : StoreCache} (quiet : c.interruption = none)
    (refused : Option Fault) (t : Table) (m : Mutation) (q : KeySlice) :
    c.readPending refused t m q =
      (unlessRefused (c.monitor.verdict refused) (m.overlay (t.readSlice q.unlimited) q.slice),
        { c with monitor := (c.monitor.record (.slice q.unlimited)).2 }) := by
  rw [readPending, ask_of_quiet quiet]
  cases c.monitor.verdict refused <;> rfl

/-- How a cache is consulted. -/
inductive ConsultGoes (c : StoreCache) (q : KeySlice) : Consultation × StoreCache → Prop
  /-- The cache is off. -/
  | off (disabled : c.slices = none) : ConsultGoes c q (.bypass, c)
  /-- The key is marked. -/
  | marked {s s' : SliceCache} (kept : c.slices = some s)
      (looked : s.isExpired c.time q.key = (true, s')) :
      ConsultGoes c q (.bypass, { c with slices := some s' })
  | hit {s s' s'' : SliceCache} {entries : List Entry} (kept : c.slices = some s)
      (looked : s.isExpired c.time q.key = (false, s'))
      (found : s'.get c.time q = (some entries, s'')) :
      ConsultGoes c q (.hit entries, { c with slices := some s'' })
  | absent {s s' s'' : SliceCache} (kept : c.slices = some s)
      (looked : s.isExpired c.time q.key = (false, s'))
      (found : s'.get c.time q = (none, s'')) :
      ConsultGoes c q (.absent s''.generation, { c with slices := some s'' })

theorem consult_goes (c : StoreCache) (q : KeySlice) : ConsultGoes c q (c.consult q) := by
  unfold consult
  cases kept : c.slices with
  | none => exact .off kept
  | some s =>
      dsimp only
      rcases looked : s.isExpired c.time q.key with ⟨_ | _, s'⟩
      · dsimp only
        rcases found : s'.get c.time q with ⟨_ | entries, s''⟩
        · exact .absent kept looked found
        · exact .hit kept looked found
      · exact .marked kept looked

/-- How a request for one slice goes. -/
inductive SliceGoes (c : StoreCache) (refusals : Refusals) (t : Table)
    (pending : Option Mutation) (q : KeySlice) :
    Outcome (List Entry) × List Fill × StoreCache → Prop
  /-- Changes of the row are held back. -/
  | overlaid {m : Mutation} {outcome : Outcome (List Entry)} {c' : StoreCache}
      (held : pending = some m)
      (asked : ((c.record (.retrieval 1)).record (.miss 1)).readPending (refusals 0) t m q =
        (outcome, c')) :
      SliceGoes c refusals t pending q (outcome, [], c')
  | served {entries : List Entry} {c' : StoreCache} (unheld : pending = none)
      (known : (c.record (.retrieval 1)).consult q = (.hit entries, c')) :
      SliceGoes c refusals t pending q (.ok entries, [], c')
  | missed {consultation : Consultation} {outcome : Outcome (List Entry)} {c' c'' : StoreCache}
      (unheld : pending = none)
      (known : (c.record (.retrieval 1)).consult q = (consultation, c'))
      (unserved : ∀ entries, consultation ≠ .hit entries)
      (asked : (c'.record (.miss 1)).ask (refusals 0) (.slice q) (t.readSlice q) =
        (outcome, c'')) :
      SliceGoes c refusals t pending q (outcome, consultation.fills q outcome, c'')

theorem requestSlice_goes (c : StoreCache) (refusals : Refusals) (t : Table)
    (pending : Option Mutation) (q : KeySlice) :
    SliceGoes c refusals t pending q (c.requestSlice refusals t pending q) := by
  unfold requestSlice
  cases pending with
  | some m => exact .overlaid rfl rfl
  | none =>
      dsimp only
      rcases known : (c.record (.retrieval 1)).consult q with ⟨_ | entries | generation, c'⟩
      · exact .missed rfl known nofun rfl
      · exact .served rfl known
      · exact .missed rfl known nofun rfl

/-- How going through keys goes. -/
inductive GatherGoes (refusals : Refusals) (t : Table) (pending : Bytes → Option Mutation)
    (slice : Slice) : List Bytes → Gathering → StoreCache → Outcome Gathering × StoreCache → Prop
  | done {g : Gathering} {c : StoreCache} : GatherGoes refusals t pending slice [] g c (.ok g, c)
  | refused {key : Bytes} {rest : List Bytes} {g : Gathering} {c c' : StoreCache} {m : Mutation}
      {fault : Fault} (held : pending key = some m)
      (asked : c.readPending (refusals g.overlaid) t m ⟨key, slice⟩ = (.error fault, c')) :
      GatherGoes refusals t pending slice (key :: rest) g c (.error fault, c')
  | overlaid {key : Bytes} {rest : List Bytes} {g : Gathering} {c c' : StoreCache} {m : Mutation}
      {entries : List Entry} {result : Outcome Gathering × StoreCache}
      (held : pending key = some m)
      (asked : c.readPending (refusals g.overlaid) t m ⟨key, slice⟩ = (.ok entries, c'))
      (later : GatherGoes refusals t pending slice rest (g.overlay key entries) c' result) :
      GatherGoes refusals t pending slice (key :: rest) g c result
  | consulted {key : Bytes} {rest : List Bytes} {g : Gathering} {c c' : StoreCache}
      {consultation : Consultation} {result : Outcome Gathering × StoreCache}
      (unheld : pending key = none) (known : c.consult ⟨key, slice⟩ = (consultation, c'))
      (later : GatherGoes refusals t pending slice rest (g.note key consultation) c' result) :
      GatherGoes refusals t pending slice (key :: rest) g c result

theorem gather_goes (refusals : Refusals) (t : Table) (pending : Bytes → Option Mutation)
    (slice : Slice) (keys : List Bytes) (g : Gathering) (c : StoreCache) :
    GatherGoes refusals t pending slice keys g c (gather refusals t pending slice keys g c) := by
  induction keys generalizing g c with
  | nil => exact .done
  | cons key rest ih =>
      unfold gather
      cases held : pending key with
      | some m =>
          dsimp only
          rcases asked : c.readPending (refusals g.overlaid) t m ⟨key, slice⟩ with
            ⟨fault | entries, c'⟩
          · exact .refused held asked
          · exact .overlaid held asked (ih _ _)
      | none => exact .consulted held rfl (ih _ _)

/-- How a request for several rows goes. -/
inductive SlicesGoes (c : StoreCache) (refusals : Refusals) (t : Table)
    (pending : Bytes → Option Mutation) (keys : List Bytes) (slice : Slice) :
    Outcome (List KeyedRow) × List Fill × StoreCache → Prop
  /-- A row with changes held back cannot be read. -/
  | stopped {fault : Fault} {c' : StoreCache}
      (gathered : gather refusals t pending slice keys.eraseDups Gathering.start
        (c.record (.retrieval (UInt64.ofNat keys.length))) = (.error fault, c')) :
      SlicesGoes c refusals t pending keys slice (.error fault, [], c')
  | complete {g : Gathering} {c' : StoreCache}
      (gathered : gather refusals t pending slice keys.eraseDups Gathering.start
        (c.record (.retrieval (UInt64.ofNat keys.length))) = (.ok g, c'))
      (nothing : g.missing = []) :
      SlicesGoes c refusals t pending keys slice
        (.ok g.found, [], c'.record (.miss (UInt64.ofNat (g.overlaid + g.missing.length))))
  | refused {g : Gathering} {fault : Fault} {c' c'' : StoreCache}
      (gathered : gather refusals t pending slice keys.eraseDups Gathering.start
        (c.record (.retrieval (UInt64.ofNat keys.length))) = (.ok g, c'))
      (missing : g.missing ≠ [])
      (asked : (c'.record (.miss (UInt64.ofNat (g.overlaid + g.missing.length)))).ask
        (refusals g.overlaid) (.slices g.missing slice) (t.readSlices g.missing slice) =
          (.error fault, c'')) :
      SlicesGoes c refusals t pending keys slice (.error fault, [], c'')
  | fetched {g : Gathering} {rows : List KeyedRow} {c' c'' : StoreCache}
      (gathered : gather refusals t pending slice keys.eraseDups Gathering.start
        (c.record (.retrieval (UInt64.ofNat keys.length))) = (.ok g, c'))
      (missing : g.missing ≠ [])
      (asked : (c'.record (.miss (UInt64.ofNat (g.overlaid + g.missing.length)))).ask
        (refusals g.overlaid) (.slices g.missing slice) (t.readSlices g.missing slice) =
          (.ok rows, c'')) :
      SlicesGoes c refusals t pending keys slice
        (.ok (g.found ++ rows), fillsOf slice rows g.fillable
          ((c.slices.map SliceCache.generation).getD 0), c'')

theorem requestSlices_goes (c : StoreCache) (refusals : Refusals) (t : Table)
    (pending : Bytes → Option Mutation) (keys : List Bytes) (slice : Slice) :
    SlicesGoes c refusals t pending keys slice (c.requestSlices refusals t pending keys slice) := by
  unfold requestSlices
  dsimp only
  rcases gathered : gather refusals t pending slice keys.eraseDups Gathering.start
    (c.record (.retrieval (UInt64.ofNat keys.length))) with ⟨fault | g, c'⟩
  · exact .stopped gathered
  · dsimp only
    by_cases nothing : g.missing = []
    · rw [if_pos (List.isEmpty_iff.2 nothing)]
      exact .complete gathered nothing
    · rw [if_neg (fun empty => nothing (List.isEmpty_iff.1 empty))]
      rcases asked : (c'.record (.miss (UInt64.ofNat (g.overlaid + g.missing.length)))).ask
        (refusals g.overlaid) (.slices g.missing slice) (t.readSlices g.missing slice) with
        ⟨fault | rows, c''⟩
      · exact .refused gathered nothing asked
      · exact .fetched gathered nothing asked

end StoreCache

end PropertyGraph
