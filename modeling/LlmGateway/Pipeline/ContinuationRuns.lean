import LlmGateway.Foundations.System
import LlmGateway.Pipeline.Continuation

/-!
# One continuation for each stop

Assessments, each for a successor of its own, statement by statement, with releases, prunings, new pins and new
records in any order. `Continuations.Coherent` says that a stop has one admitted successor that is not released, at
most, and that every admitted successor continues the lineage of its stop.

The lineage holds in all runs. For the uniqueness the claim row of an admitted successor has to be there when
another assessment claims, or reads the row that has beaten it: when the row is pruned under an assessment that
has read the record before, or is gone when the loser reads it, a second successor is admitted. `coherent_iff` says
that this is all that goes wrong.
-/

namespace LlmGateway.Pipeline

/-- A successor that was admitted, with its lineage. -/
structure Admission where
  stop : String
  successor : String
  root : String
  seq : ℕ
  released : Bool

/-- The journal, the assessments under way, the admissions so far, the successors that were ever assessed, and all
executions that any call has named. -/
structure Continuations where
  journal : Journal
  tasks : List (AssessArgs × AssessPhase)
  admitted : List Admission
  issued : List String
  mentioned : List String

def Continuations.start : Continuations := ⟨.empty, [], [], [], []⟩

inductive ContinuationEvent where
  | assess (a : AssessArgs)
  /-- The assessment at this place takes its next statement. -/
  | advance (i : ℕ)
  /-- The assessment at this place ends with what it has committed. -/
  | drop (i : ℕ)
  | release (stop successor : String)
  | prune (p : Prunable) (cutoff : ℚ)
  /-- A run that continues no other pins its request. -/
  | pin (root : String) (row : LineageRow)
  | record (executionId : String) (r : DispatchRecord)

/-- The admission that a decision is. -/
def AssessArgs.admission (a : AssessArgs) (d : ContinuationDecision) : List Admission :=
  if d.admitted then
    (d.lineageRoot.map fun root =>
      ⟨a.stopExecutionId, a.successorExecutionId, root, d.continuationSeq, false⟩).toList
  else []

/-- Mark the admission of a successor as released. -/
def Admission.release (stop successor : String) (adm : Admission) : Admission :=
  if adm.stop = stop ∧ adm.successor = successor then { adm with released := true } else adm

/-- The assessment behind its next statement. -/
def Continuations.proceed (x : Continuations) (i : ℕ) (a : AssessArgs) (phase : AssessPhase) : Continuations :=
  match phase.run a x.journal with
  | (j, .inl phase) => { x with journal := j, tasks := x.tasks.set i (a, phase) }
  | (j, .inr d) => { x with journal := j, tasks := x.tasks.eraseIdx i, admitted := x.admitted ++ a.admission d }

def Continuations.step (x : Continuations) : ContinuationEvent → Continuations
  | .assess a =>
    -- The id of a successor is new.
    if x.mentioned.contains a.successorExecutionId || a.successorExecutionId == a.stopExecutionId then x
    else
      { x with
        tasks := x.tasks ++ (a.start.getLeft?.map fun phase => (a, phase)).toList
        issued := a.successorExecutionId :: x.issued
        mentioned := a.successorExecutionId :: a.stopExecutionId :: x.mentioned }
  | .advance i => x.tasks[i]?.elim x fun task => x.proceed i task.1 task.2
  | .drop i => { x with tasks := x.tasks.eraseIdx i }
  | .release stop successor =>
    if x.admitted.any fun adm => adm.stop == stop && adm.successor == successor then
      { x with
        journal := releaseContinuation stop successor x.journal
        admitted := x.admitted.map (Admission.release stop successor) }
    else x
  | .prune p cutoff => { x with journal := prune p cutoff x.journal }
  | .pin root row =>
    if x.issued.contains root then x
    else { x with journal := writeLineageRoot root row x.journal, mentioned := root :: x.mentioned }
  | .record executionId r =>
    { x with
      journal := { x.journal with records := x.journal.records.set executionId r }
      mentioned := executionId :: x.mentioned }

/-- The lineage of the successors of an execution: that of its own admission, one further, or its own as a root. -/
def nextLineage (admitted : List Admission) (stop : String) : String × ℕ :=
  (admitted.find? fun adm => adm.successor == stop).elim (stop, 1) fun adm => (adm.root, adm.seq + 1)

/-- A stop has one admitted successor that is not released, at most, and an admitted successor continues the
lineage of its stop. -/
structure Continuations.Coherent (x : Continuations) : Prop where
  unique : ∀ stop, (x.admitted.countP fun adm => adm.stop == stop && !adm.released) ≤ 1
  lineage : ∀ adm ∈ x.admitted, (adm.root, adm.seq) = nextLineage x.admitted adm.stop

/-- The assessment is about to claim, or to read the row that has beaten it. -/
def AssessPhase.isClaim : AssessPhase → Bool
  | claiming _ _ | rereading _ _ => true
  | _ => false

/-- When an assessment claims, or reads the row that has beaten it, and its stop has an admitted successor that is
not released, the claim row of the stop is there. -/
def ContinuationEvent.Keeps (x : Continuations) : ContinuationEvent → Prop
  | .advance i => ∀ a phase, x.tasks[i]? = some (a, phase) → phase.isClaim = true →
    ∀ adm ∈ x.admitted, adm.stop = a.stopExecutionId → adm.released = false →
      x.journal.claims.contains a.stopExecutionId = true
  | _ => True

/-! ## Lineages -/

theorem nextLineage_of_mem {admitted : List Admission} (hn : (admitted.map Admission.successor).Nodup)
    {adm : Admission} (h : adm ∈ admitted) : nextLineage admitted adm.successor = (adm.root, adm.seq + 1) := by
  rcases hfind : admitted.find? fun b => b.successor == adm.successor with - | b
  · exact absurd (List.find?_eq_none.1 hfind adm h) (by simp)
  · have hb := List.mem_of_find?_eq_some hfind
    have heq : b.successor = adm.successor := by simpa using List.find?_some hfind
    obtain rfl := List.inj_on_of_nodup_map hn hb h heq
    rw [nextLineage, hfind]
    rfl

theorem nextLineage_of_not {admitted : List Admission} {id : String}
    (h : ∀ adm ∈ admitted, adm.successor ≠ id) : nextLineage admitted id = (id, 1) := by
  have hnone : (admitted.find? fun adm => adm.successor == id) = none :=
    List.find?_eq_none.2 fun adm hadm => by simpa using h adm hadm
  rw [nextLineage, hnone]
  rfl

theorem nextLineage_append {admitted : List Admission} {new : List Admission} {id : String}
    (h : ∀ adm ∈ new, adm.successor ≠ id) : nextLineage (admitted ++ new) id = nextLineage admitted id := by
  have hnone : (new.find? fun adm => adm.successor == id) = none :=
    List.find?_eq_none.2 fun adm hadm => by simpa using h adm hadm
  rw [nextLineage, nextLineage, List.find?_append, hnone, Option.or_none]

/-- The admission with the same lineage. -/
structure Admission.Same (adm adm' : Admission) : Prop where
  stop : adm'.stop = adm.stop
  successor : adm'.successor = adm.successor
  root : adm'.root = adm.root
  seq : adm'.seq = adm.seq

theorem Admission.same_release (stop successor : String) (adm : Admission) :
    adm.Same (adm.release stop successor) := by
  unfold Admission.release
  split <;> exact ⟨rfl, rfl, rfl, rfl⟩

theorem nextLineage_map {f : Admission → Admission} (hf : ∀ adm : Admission, adm.Same (f adm))
    (admitted : List Admission) (id : String) : nextLineage (admitted.map f) id = nextLineage admitted id := by
  induction admitted with
  | nil => rfl
  | cons adm admitted ih =>
    obtain ⟨-, hs, hr, hq⟩ := hf adm
    rw [nextLineage, nextLineage, List.map_cons, List.find?_cons, List.find?_cons, hs]
    split
    · rw [Option.elim_some, Option.elim_some, hr, hq]
    · exact ih

/-- Whether the execution is a successor is settled: it is none, or it has been admitted. -/
structure Continuations.Settled (x : Continuations) (id : String) : Prop where
  mentioned : id ∈ x.mentioned
  admitted : id ∈ x.issued → ∃ adm ∈ x.admitted, adm.successor = id

/-- A walk from the stop that stands `n` claims away from it. -/
def Continuations.LineageAt (x : Continuations) (stop current : String) (seq : ℕ) : Prop :=
  (current = stop ∧ seq = 1) ∨ (x.Settled current ∧ x.Settled stop ∧ ∃ n, seq = n + 1 ∧
    nextLineage x.admitted stop =
      ((nextLineage x.admitted current).1, (nextLineage x.admitted current).2 + n))

/-- What an assessment knows. -/
def Continuations.Knows (x : Continuations) (stop : String) : AssessPhase → Prop
  | .fetching => True
  | .walking (.reading current seq _) => x.LineageAt stop current seq
  | .walking (.following current seq _) => x.LineageAt stop current seq
  | .checking root seq => x.LineageAt stop root seq
  | .claiming root seq => x.Settled stop ∧ (root, seq) = nextLineage x.admitted stop
  | .rereading root seq => x.Settled stop ∧ (root, seq) = nextLineage x.admitted stop

/-- What holds in every run. -/
structure Continuations.Sound (x : Continuations) : Prop where
  issued : ∀ id ∈ x.issued, id ∈ x.mentioned
  tasks : ∀ a phase, (a, phase) ∈ x.tasks → a.successorExecutionId ∈ x.issued ∧
    a.stopExecutionId ∈ x.mentioned ∧ (∀ adm ∈ x.admitted, adm.successor ≠ a.successorExecutionId) ∧
    x.Knows a.stopExecutionId phase
  distinct : (x.tasks.map fun task => task.1.successorExecutionId).Nodup
  admitted : ∀ adm ∈ x.admitted, adm.successor ∈ x.issued ∧ x.Settled adm.stop ∧
    (adm.root, adm.seq) = nextLineage x.admitted adm.stop
  successors : (x.admitted.map Admission.successor).Nodup
  claims : ∀ stop row, x.journal.claims.get? stop = some row →
    ∃ adm ∈ x.admitted, adm.stop = stop ∧ adm.successor = row.successorExecutionId
  pins : ∀ root row, x.journal.lineage.get? root = some row → root ∈ x.mentioned ∧ root ∉ x.issued

/-! ## What later states know -/

/-- What was settled stays so, with its lineage. -/
structure Later (x x' : Continuations) : Prop where
  settled : ∀ id, x.Settled id → x'.Settled id
  lineage : ∀ id, x.Settled id → nextLineage x'.admitted id = nextLineage x.admitted id

variable {x x' : Continuations} {stop : String}

theorem Continuations.LineageAt.later (hl : Later x x') {current : String} {seq : ℕ}
    (h : x.LineageAt stop current seq) : x'.LineageAt stop current seq := by
  obtain h | ⟨hc, hs, n, hn, heq⟩ := h
  · exact .inl h
  · refine .inr ⟨hl.settled _ hc, hl.settled _ hs, n, hn, ?_⟩
    rw [hl.lineage _ hc, hl.lineage _ hs]
    exact heq

variable {phase : AssessPhase} {j : Journal} {a : AssessArgs} {i : ℕ}

theorem Continuations.Knows.later (hl : Later x x') (h : x.Knows stop phase) :
    x'.Knows stop phase := by
  cases phase with
  | fetching => trivial
  | walking w =>
    cases w with
    | reading current seq seen | following current seq seen => exact Continuations.LineageAt.later hl h
  | checking root seq => exact Continuations.LineageAt.later hl h
  | claiming root seq | rereading root seq => exact ⟨hl.settled _ h.1, h.2.trans (hl.lineage _ h.1).symm⟩

/-! ## Steps that let nobody in -/

theorem Continuations.Sound.frame (h : x.Sound) {f : Admission → Admission}
    (hf : ∀ adm : Admission, adm.Same (f adm)) {mentioned : List String} (hm : ∀ id ∈ x.mentioned, id ∈ mentioned)
    (hclaims : ∀ stop row, j.claims.get? stop = some row → x.journal.claims.get? stop = some row)
    (hpins : ∀ root row, j.lineage.get? root = some row →
      x.journal.lineage.get? root = some row ∨ (root ∈ mentioned ∧ root ∉ x.issued)) :
    Continuations.Sound ⟨j, x.tasks, x.admitted.map f, x.issued, mentioned⟩ := by
  have hfind : ∀ id, (∃ adm ∈ x.admitted, adm.successor = id) →
      ∃ adm ∈ x.admitted.map f, adm.successor = id := by
    rintro id ⟨adm, hadm, rfl⟩
    exact ⟨f adm, List.mem_map_of_mem hadm, (hf adm).successor⟩
  have hl : Later x ⟨j, x.tasks, x.admitted.map f, x.issued, mentioned⟩ :=
    ⟨fun id hid => ⟨hm id hid.mentioned, fun hi => hfind id (hid.admitted hi)⟩,
      fun id _ => nextLineage_map hf _ _⟩
  refine ⟨fun id hid => hm id (h.issued id hid), ?_, h.distinct, ?_, ?_, ?_, ?_⟩
  · intro a phase hmem
    obtain ⟨hi, hs, hne, hk⟩ := h.tasks a phase hmem
    refine ⟨hi, hm _ hs, fun adm' hadm' => ?_, hk.later hl⟩
    obtain ⟨adm, hadm, rfl⟩ := List.mem_map.1 hadm'
    rw [(hf adm).successor]
    exact hne adm hadm
  · intro adm' hadm'
    obtain ⟨adm, hadm, rfl⟩ := List.mem_map.1 hadm'
    obtain ⟨hi, hs, heq⟩ := h.admitted adm hadm
    rw [(hf adm).successor, (hf adm).stop, (hf adm).root, (hf adm).seq]
    exact ⟨hi, hl.settled _ hs, heq.trans (hl.lineage _ hs).symm⟩
  · have hsame : (x.admitted.map f).map Admission.successor = x.admitted.map Admission.successor := by
      rw [List.map_map]
      exact List.map_congr_left fun adm _ => (hf adm).successor
    rw [hsame]
    exact h.successors
  · intro stop row hrow
    obtain ⟨adm, hadm, hstop, hsucc⟩ := h.claims stop row (hclaims stop row hrow)
    exact ⟨f adm, List.mem_map_of_mem hadm, (hf adm).stop.trans hstop, (hf adm).successor.trans hsucc⟩
  · intro root row hrow
    obtain hrow | hnew := hpins root row hrow
    · obtain ⟨hmen, hiss⟩ := h.pins root row hrow
      exact ⟨hm _ hmen, hiss⟩
    · exact hnew

theorem Admission.Same.refl (adm : Admission) : adm.Same adm := ⟨rfl, rfl, rfl, rfl⟩

theorem Continuations.Sound.tables (h : x.Sound) {mentioned : List String} (hm : ∀ id ∈ x.mentioned, id ∈ mentioned)
    (hclaims : ∀ stop row, j.claims.get? stop = some row → x.journal.claims.get? stop = some row)
    (hpins : ∀ root row, j.lineage.get? root = some row →
      x.journal.lineage.get? root = some row ∨ (root ∈ mentioned ∧ root ∉ x.issued)) :
    Continuations.Sound ⟨j, x.tasks, x.admitted, x.issued, mentioned⟩ := by
  have hsound := h.frame (f := id) Admission.Same.refl hm hclaims hpins
  rwa [List.map_id] at hsound

theorem Continuations.Sound.assess (h : x.Sound)
    (hfresh : a.successorExecutionId ∉ x.mentioned) (hne : a.successorExecutionId ≠ a.stopExecutionId)
    (phases : Option AssessPhase) (hphases : ∀ phase ∈ phases, phase = .fetching) :
    Continuations.Sound ⟨x.journal, x.tasks ++ (phases.map fun phase => (a, phase)).toList, x.admitted,
      a.successorExecutionId :: x.issued, a.successorExecutionId :: a.stopExecutionId :: x.mentioned⟩ := by
  have hold : ∀ id ∈ x.mentioned, id ∈ a.successorExecutionId :: x.issued → id ∈ x.issued := by
    rintro id hid hmem
    obtain rfl | hmem := List.mem_cons.1 hmem
    · exact absurd hid hfresh
    · exact hmem
  have hsettled : ∀ id, x.Settled id → Continuations.Settled ⟨x.journal,
      x.tasks ++ (phases.map fun phase => (a, phase)).toList, x.admitted, a.successorExecutionId :: x.issued,
      a.successorExecutionId :: a.stopExecutionId :: x.mentioned⟩ id := fun id hid =>
    ⟨List.mem_cons_of_mem _ (List.mem_cons_of_mem _ hid.mentioned),
      fun hi => hid.admitted (hold id hid.mentioned hi)⟩
  have hnew : ∀ b phase, (b, phase) ∈ (phases.map fun phase => (a, phase)).toList →
      b = a ∧ phase = .fetching := by
    intro b phase hmem
    obtain ⟨phase', hphase', heq⟩ := Option.map_eq_some_iff.1 (Option.mem_toList.1 hmem)
    obtain ⟨rfl, rfl⟩ := Prod.mk.inj heq
    exact ⟨rfl, hphases _ hphase'⟩
  have hnot : ∀ adm ∈ x.admitted, adm.successor ≠ a.successorExecutionId := by
    rintro adm hadm heq
    exact hfresh (heq ▸ h.issued _ (h.admitted adm hadm).1)
  refine ⟨?_, ?_, ?_, ?_, h.successors, h.claims, ?_⟩
  · intro id hid
    obtain rfl | hid := List.mem_cons.1 hid
    · exact List.mem_cons_self
    · exact List.mem_cons_of_mem _ (List.mem_cons_of_mem _ (h.issued id hid))
  · intro b phase hmem
    obtain hmem | hmem := List.mem_append.1 hmem
    · obtain ⟨hi, hs, hne', hk⟩ := h.tasks b phase hmem
      exact ⟨List.mem_cons_of_mem _ hi, List.mem_cons_of_mem _ (List.mem_cons_of_mem _ hs), hne',
        hk.later ⟨hsettled, fun _ _ => rfl⟩⟩
    · obtain ⟨rfl, rfl⟩ := hnew b phase hmem
      exact ⟨List.mem_cons_self, List.mem_cons_of_mem _ List.mem_cons_self, hnot, trivial⟩
  · rw [List.map_append, List.nodup_append]
    refine ⟨h.distinct, ?_, ?_⟩
    · cases phases <;> simp
    · rintro id hid id' hid' rfl
      obtain ⟨task, htask, rfl⟩ := List.mem_map.1 hid
      obtain ⟨task', htask', heq⟩ := List.mem_map.1 hid'
      obtain ⟨rfl, -⟩ := hnew task'.1 task'.2 htask'
      exact hfresh (heq ▸ h.issued _ (h.tasks task.1 task.2 htask).1)
  · intro adm hadm
    obtain ⟨hi, hs, heq⟩ := h.admitted adm hadm
    exact ⟨List.mem_cons_of_mem _ hi, hsettled _ hs, heq⟩
  · intro root row hrow
    obtain ⟨hmen, hiss⟩ := h.pins root row hrow
    exact ⟨List.mem_cons_of_mem _ (List.mem_cons_of_mem _ hmen), fun hi => hiss (hold root hmen hi)⟩

/-! ## Statements of an assessment -/

theorem Continuations.Sound.nextLineage_of_claim (h : x.Sound) {current predecessor : String}
    (hp : x.journal.predecessorStop current = some predecessor) :
    x.Settled current ∧ x.Settled predecessor ∧ nextLineage x.admitted current =
      ((nextLineage x.admitted predecessor).1, (nextLineage x.admitted predecessor).2 + 1) := by
  obtain ⟨row, hrow, rfl⟩ := mem_of_predecessorStop hp
  obtain ⟨adm, hadm, rfl, hsucc⟩ := h.claims predecessor row hrow
  obtain ⟨hi, hs, heq⟩ := h.admitted adm hadm
  rw [← hsucc]
  refine ⟨⟨h.issued _ hi, fun _ => ⟨adm, hadm, rfl⟩⟩, hs, ?_⟩
  rw [nextLineage_of_mem h.successors hadm, ← heq]

theorem Continuations.Sound.walk (h : x.Sound) {w : LineageWalk} (hk : x.Knows stop (.walking w)) :
    (∀ w', w.run x.journal stop = .inl w' → x.Knows stop (.walking w')) ∧
    (∀ root seq, w.run x.journal stop = .inr (root, seq) → x.Knows stop (.checking root seq)) := by
  cases w with
  | reading current seq seen =>
    simp only [LineageWalk.run]
    refine ⟨fun w' hw => ?_, fun root seq' hw => ?_⟩
    · split at hw
      · cases hw
      · obtain rfl := Sum.inl.inj hw
        exact hk
    · split at hw
      · obtain ⟨rfl, rfl⟩ := Prod.mk.inj (Sum.inr.inj hw)
        exact hk
      · cases hw
  | following current seq seen =>
    simp only [LineageWalk.run]
    rcases hp : x.journal.predecessorStop current with - | p
    · refine ⟨fun w' hw => (by cases hw), fun root seq' hw => ?_⟩
      obtain ⟨rfl, rfl⟩ := Prod.mk.inj (Sum.inr.inj hw)
      exact hk
    · dsimp only
      split
      · refine ⟨fun w' hw => (by cases hw), fun root seq' hw => ?_⟩
        obtain ⟨rfl, rfl⟩ := Prod.mk.inj (Sum.inr.inj hw)
        exact .inl ⟨rfl, rfl⟩
      · refine ⟨fun w' hw => ?_, fun root seq' hw => (by cases hw)⟩
        obtain rfl := Sum.inl.inj hw
        obtain ⟨hc, hp', hnext⟩ := h.nextLineage_of_claim hp
        obtain ⟨rfl, rfl⟩ | ⟨-, hs, n, rfl, heq⟩ := hk
        · exact .inr ⟨hp', hc, 1, rfl, hnext⟩
        · refine .inr ⟨hp', hs, n + 1, rfl, ?_⟩
          rw [heq, hnext, Nat.add_assoc, Nat.add_comm 1 n]

theorem Continuations.Sound.of_pinned (h : x.Sound) {root : String} {seq : ℕ} {row : LineageRow}
    (hpin : x.journal.lineage.get? root = some row) (hk : x.LineageAt stop root seq) :
    x.Settled stop ∧ (root, seq) = nextLineage x.admitted stop := by
  obtain ⟨hmen, hiss⟩ := h.pins root row hpin
  have hroot : nextLineage x.admitted root = (root, 1) :=
    nextLineage_of_not fun adm hadm heq => hiss (heq ▸ (h.admitted adm hadm).1)
  obtain ⟨rfl, rfl⟩ | ⟨-, hs, n, rfl, heq⟩ := hk
  · exact ⟨⟨hmen, fun hi => absurd hi hiss⟩, hroot.symm⟩
  · rw [hroot] at heq
    rw [heq, Nat.add_comm n 1]
    exact ⟨hs, rfl⟩

/-- The admission of a claim that is won. -/
def AssessArgs.admitted (a : AssessArgs) (lineage : String × ℕ) : Admission :=
  ⟨a.stopExecutionId, a.successorExecutionId, lineage.1, lineage.2, false⟩

/-- **One statement.** The assessment knows more, or is refused, or admits its successor where the stop has no
claim row. -/
theorem run_cases (h : x.Sound) (hk : x.Knows a.stopExecutionId phase)
    (hown : ∀ adm ∈ x.admitted, adm.successor ≠ a.successorExecutionId) :
    ((∃ phase', phase.run a x.journal = (x.journal, .inl phase') ∧ x.Knows a.stopExecutionId phase') ∧
      (phase.isClaim = true → x.journal.claims.contains a.stopExecutionId = true)) ∨
    ((∃ d, phase.run a x.journal = (x.journal, .inr d) ∧ a.admission d = []) ∧
      (phase.isClaim = true → x.journal.claims.contains a.stopExecutionId = true)) ∨
    (∃ j d, phase.run a x.journal = (j, .inr d) ∧ phase.isClaim = true ∧
      x.journal.claims.contains a.stopExecutionId = false ∧ x.Settled a.stopExecutionId ∧
      a.admission d = [a.admitted (nextLineage x.admitted a.stopExecutionId)] ∧
      j.lineage = x.journal.lineage ∧ ∀ stop row, j.claims.get? stop = some row →
        x.journal.claims.get? stop = some row ∨
          (stop = a.stopExecutionId ∧ row.successorExecutionId = a.successorExecutionId)) := by
  cases phase with
  | fetching =>
    simp only [AssessPhase.run, AssessArgs.fetched]
    rcases hr : x.journal.records.get? a.stopExecutionId with - | r
    · exact .inr (.inl ⟨⟨_, rfl, rfl⟩, fun hc => (by cases hc)⟩)
    · rcases href : refusalForRecord r.recordJson r.status with - | ⟨code, message⟩
      · refine .inl ⟨⟨.walking (.start a.stopExecutionId), ?_, .inl ⟨rfl, rfl⟩⟩, fun hc => (by cases hc)⟩
        simp only [href]
      · refine .inr (.inl ⟨⟨refusal code message, ?_, rfl⟩, fun hc => (by cases hc)⟩)
        simp only [href]
  | walking w =>
    simp only [AssessPhase.run]
    obtain ⟨hinl, hinr⟩ := h.walk hk
    rcases hw : w.run x.journal a.stopExecutionId with w' | ⟨root, seq⟩
    · exact .inl ⟨⟨_, rfl, hinl w' hw⟩, fun hc => (by cases hc)⟩
    · exact .inl ⟨⟨_, rfl, hinr root seq hw⟩, fun hc => (by cases hc)⟩
  | checking root seq =>
    simp only [AssessPhase.run, AssessArgs.checked]
    rcases hr : x.journal.lineage.get? root with - | row
    · exact .inr (.inl ⟨⟨_, rfl, rfl⟩, fun hc => (by cases hc)⟩)
    · dsimp only
      split
      · exact .inr (.inl ⟨⟨_, rfl, rfl⟩, fun hc => (by cases hc)⟩)
      · exact .inl ⟨⟨_, rfl, h.of_pinned hr hk⟩, fun hc => (by cases hc)⟩
  | claiming root seq =>
    simp only [AssessPhase.run]
    split
    · rename_i hc
      exact .inl ⟨⟨_, rfl, hk⟩, fun _ => hc⟩
    · rename_i hc
      refine .inr (.inr ⟨_, _, rfl, rfl, Bool.eq_false_iff.2 hc, hk.1, ?_, rfl, fun stop row hrow => ?_⟩)
      · rw [← hk.2]
        rfl
      · by_cases hs : stop = a.stopExecutionId
        · subst hs
          rw [Dict.get?_set_self] at hrow
          obtain rfl := Option.some.inj hrow
          exact .inr ⟨rfl, rfl⟩
        · rw [Dict.get?_set_ne _ hs] at hrow
          exact .inl hrow
  | rereading root seq =>
    simp only [AssessPhase.run]
    rcases hr : x.journal.claims.get? a.stopExecutionId with - | row
    · refine .inr (.inr ⟨_, _, rfl, rfl, ?_, hk.1, ?_, rfl, fun stop row hrow => .inl hrow⟩)
      · rw [Bool.eq_false_iff]
        intro hc
        obtain ⟨row, hrow⟩ := Dict.contains_iff.1 hc
        rw [hr] at hrow
        cases hrow
      · rw [← hk.2]
        simp only [AssessArgs.lost, Option.elim_none, if_true]
        rfl
    · refine .inr (.inl ⟨⟨_, rfl, ?_⟩, fun _ => Dict.contains_iff.2 ⟨row, hr⟩⟩)
      obtain ⟨adm, hadm, -, hsucc⟩ := h.claims _ row hr
      have hne : row.successorExecutionId ≠ a.successorExecutionId := hsucc ▸ hown adm hadm
      rw [AssessArgs.lost, Option.elim_some, if_neg hne]
      rfl

/-! ## Steps of an assessment -/

theorem countP_append_admitted (l : List Admission) (a : AssessArgs) (lineage : String × ℕ) (stop : String) :
    ((l ++ [a.admitted lineage]).countP fun adm => adm.stop == stop && !adm.released) =
      (l.countP fun adm => adm.stop == stop && !adm.released) + if a.stopExecutionId = stop then 1 else 0 := by
  rw [List.countP_append, List.countP_singleton]
  simp [AssessArgs.admitted]

theorem Continuations.Sound.tasks_of (h : x.Sound) {tasks : List (AssessArgs × AssessPhase)}
    (hmem : ∀ a phase, (a, phase) ∈ tasks → (a, phase) ∈ x.tasks ∨
      ((∃ phase', (a, phase') ∈ x.tasks) ∧ x.Knows a.stopExecutionId phase))
    (hdistinct : (tasks.map fun task => task.1.successorExecutionId).Nodup) :
    Continuations.Sound ⟨x.journal, tasks, x.admitted, x.issued, x.mentioned⟩ := by
  have hl : Later x ⟨x.journal, tasks, x.admitted, x.issued, x.mentioned⟩ :=
    ⟨fun _ hid => ⟨hid.mentioned, hid.admitted⟩, fun _ _ => rfl⟩
  refine ⟨h.issued, fun a phase ha => ?_, hdistinct, fun adm hadm => ?_, h.successors, h.claims, h.pins⟩
  · obtain hold | ⟨⟨phase', hold⟩, hk⟩ := hmem a phase ha
    · obtain ⟨hi, hs, hne, hk⟩ := h.tasks a phase hold
      exact ⟨hi, hs, hne, hk.later hl⟩
    · obtain ⟨hi, hs, hne, -⟩ := h.tasks a phase' hold
      exact ⟨hi, hs, hne, hk.later hl⟩
  · obtain ⟨hi, hs, heq⟩ := h.admitted adm hadm
    exact ⟨hi, hl.settled _ hs, heq⟩

theorem nodup_eraseIdx (h : x.Sound) (i : ℕ) :
    ((x.tasks.eraseIdx i).map fun task => task.1.successorExecutionId).Nodup :=
  ((List.eraseIdx_sublist _ _).map _).nodup h.distinct

theorem nodup_set (h : x.Sound) (hi : x.tasks[i]? = some (a, phase)) (phase' : AssessPhase) :
    ((x.tasks.set i (a, phase')).map fun task => task.1.successorExecutionId).Nodup := by
  obtain ⟨hlt, hget⟩ := List.getElem?_eq_some_iff.1 hi
  have hlt' : i < (x.tasks.map fun task => task.1.successorExecutionId).length := by
    rwa [List.length_map]
  have hsucc : a.successorExecutionId = (x.tasks.map fun task => task.1.successorExecutionId)[i] := by
    rw [List.getElem_map, hget]
  rw [List.map_set, hsucc, List.set_getElem_self hlt']
  exact h.distinct

theorem Continuations.Sound.ne_of_mem_eraseIdx (h : x.Sound)
    (hi : x.tasks[i]? = some (a, phase)) {b : AssessArgs} {phase' : AssessPhase}
    (hb : (b, phase') ∈ x.tasks.eraseIdx i) : b.successorExecutionId ≠ a.successorExecutionId := by
  obtain ⟨k, hk, hget⟩ := List.mem_eraseIdx_iff_getElem?.1 hb
  intro heq
  have hlt : k < (x.tasks.map fun task => task.1.successorExecutionId).length := by
    rw [List.length_map]
    exact (List.getElem?_eq_some_iff.1 hget).1
  refine hk ((List.getElem?_inj hlt h.distinct).1 ?_)
  rw [List.getElem?_map, List.getElem?_map, hget, hi, Option.map_some, Option.map_some, heq]

theorem Continuations.Sound.admission (h : x.Sound)
    (hi : x.tasks[i]? = some (a, phase)) (hs : x.Settled a.stopExecutionId)
    (hlineage : j.lineage = x.journal.lineage) (hclaims : ∀ stop row, j.claims.get? stop = some row →
      x.journal.claims.get? stop = some row ∨
        (stop = a.stopExecutionId ∧ row.successorExecutionId = a.successorExecutionId)) :
    Continuations.Sound ⟨j, x.tasks.eraseIdx i,
      x.admitted ++ [a.admitted (nextLineage x.admitted a.stopExecutionId)], x.issued, x.mentioned⟩ := by
  obtain ⟨hissued, -, hnot, -⟩ := h.tasks a phase (List.mem_of_getElem? hi)
  -- The successor is issued and was not admitted, so it was not settled.
  have hl : Later x ⟨j, x.tasks.eraseIdx i,
      x.admitted ++ [a.admitted (nextLineage x.admitted a.stopExecutionId)], x.issued, x.mentioned⟩ := by
    refine ⟨fun id hid => ⟨hid.mentioned, fun hi => ?_⟩, fun id hid => nextLineage_append fun adm hadm heq => ?_⟩
    · obtain ⟨adm, hadm, heq⟩ := hid.admitted hi
      exact ⟨adm, List.mem_append_left _ hadm, heq⟩
    · obtain rfl := List.mem_singleton.1 hadm
      obtain ⟨adm', hadm', heq'⟩ := hid.admitted (heq ▸ hissued)
      exact hnot adm' hadm' (heq'.trans heq.symm)
  refine ⟨h.issued, ?_, nodup_eraseIdx h i, ?_, ?_, ?_, ?_⟩
  · intro b phase' hb
    obtain ⟨hbi, hbs, hbne, hk⟩ := h.tasks b phase' (List.mem_of_mem_eraseIdx hb)
    refine ⟨hbi, hbs, fun adm hadm => ?_, hk.later hl⟩
    obtain hadm | hadm := List.mem_append.1 hadm
    · exact hbne adm hadm
    · obtain rfl := List.mem_singleton.1 hadm
      exact (h.ne_of_mem_eraseIdx hi hb).symm
  · intro adm hadm
    obtain hadm | hadm := List.mem_append.1 hadm
    · obtain ⟨hai, has, heq⟩ := h.admitted adm hadm
      exact ⟨hai, hl.settled _ has, heq.trans (hl.lineage _ has).symm⟩
    · obtain rfl := List.mem_singleton.1 hadm
      exact ⟨hissued, hl.settled _ hs, (hl.lineage _ hs).symm⟩
  · rw [List.map_append, List.nodup_append]
    refine ⟨h.successors, List.nodup_singleton _, ?_⟩
    rintro id hid id' hid' rfl
    obtain ⟨adm, hadm, rfl⟩ := List.mem_map.1 hid
    exact hnot adm hadm (List.mem_singleton.1 hid')
  · intro stop row hrow
    obtain hrow | ⟨rfl, hsucc⟩ := hclaims stop row hrow
    · obtain ⟨adm, hadm, heq⟩ := h.claims stop row hrow
      exact ⟨adm, List.mem_append_left _ hadm, heq⟩
    · exact ⟨_, List.mem_append_right _ (List.mem_singleton.2 rfl), rfl, hsucc.symm⟩
  · intro root row hrow
    rw [hlineage] at hrow
    exact h.pins root row hrow

theorem coherent_iff_unique (h : x.Sound) : x.Coherent ↔
    ∀ stop, (x.admitted.countP fun adm => adm.stop == stop && !adm.released) ≤ 1 :=
  ⟨fun hc => hc.unique, fun hu => ⟨hu, fun adm hadm => (h.admitted adm hadm).2.2⟩⟩

/-- A step of an assessment keeps what holds in every run, and is coherent exactly when its condition holds. -/
theorem Continuations.Sound.proceed (h : x.Sound) (hi : x.tasks[i]? = some (a, phase)) :
    (x.proceed i a phase).Sound ∧ (x.Coherent → ((x.proceed i a phase).Coherent ↔
      (phase.isClaim = true → ∀ adm ∈ x.admitted, adm.stop = a.stopExecutionId → adm.released = false →
        x.journal.claims.contains a.stopExecutionId = true))) := by
  have hmem := List.mem_of_getElem? hi
  obtain ⟨-, -, hnot, hk⟩ := h.tasks a phase hmem
  obtain ⟨⟨phase', hrun, hk'⟩, hthere⟩ | ⟨⟨d, hrun, hd⟩, hthere⟩ |
    ⟨j, d, hrun, hclaim, hgone, hs, hd, hlineage, hclaims⟩ := run_cases h hk hnot
  · have heq : x.proceed i a phase =
        ⟨x.journal, x.tasks.set i (a, phase'), x.admitted, x.issued, x.mentioned⟩ := by
      rw [Continuations.proceed, hrun]
    have hsound : (x.proceed i a phase).Sound := by
      rw [heq]
      refine h.tasks_of (fun b phase'' hb => ?_) (nodup_set h hi phase')
      obtain hb | heq := List.mem_or_eq_of_mem_set hb
      · exact .inl hb
      · obtain ⟨rfl, rfl⟩ := Prod.mk.inj heq
        exact .inr ⟨⟨phase, hmem⟩, hk'⟩
    refine ⟨hsound, fun hc => iff_of_true ((coherent_iff_unique hsound).2 ?_) fun hclaim _ _ _ _ => hthere hclaim⟩
    rw [heq]
    exact hc.unique
  · have heq : x.proceed i a phase =
        ⟨x.journal, x.tasks.eraseIdx i, x.admitted, x.issued, x.mentioned⟩ := by
      rw [Continuations.proceed, hrun]
      simp only [hd, List.append_nil]
    have hsound : (x.proceed i a phase).Sound := by
      rw [heq]
      exact h.tasks_of (fun b phase'' hb => .inl (List.mem_of_mem_eraseIdx hb)) (nodup_eraseIdx h i)
    refine ⟨hsound, fun hc => iff_of_true ((coherent_iff_unique hsound).2 ?_) fun hclaim _ _ _ _ => hthere hclaim⟩
    rw [heq]
    exact hc.unique
  · have heq : x.proceed i a phase = ⟨j, x.tasks.eraseIdx i,
        x.admitted ++ [a.admitted (nextLineage x.admitted a.stopExecutionId)], x.issued, x.mentioned⟩ := by
      rw [Continuations.proceed, hrun]
      simp only [hd]
    have hsound : (x.proceed i a phase).Sound := by
      rw [heq]
      exact h.admission hi hs hlineage hclaims
    refine ⟨hsound, fun hc => (coherent_iff_unique hsound).trans ?_⟩
    simp only [heq, countP_append_admitted, hclaim, hgone, true_implies, Bool.false_eq_true]
    constructor
    · intro hu adm hadm hstop hrel
      have hpos : 0 < x.admitted.countP fun adm => adm.stop == a.stopExecutionId && !adm.released :=
        List.countP_pos_iff.2 ⟨adm, hadm, by simp [hstop, hrel]⟩
      have := hu a.stopExecutionId
      rw [if_pos rfl] at this
      omega
    · intro hnone stop
      split
      · rename_i hstop
        subst hstop
        have hzero : (x.admitted.countP fun adm => adm.stop == a.stopExecutionId && !adm.released) = 0 := by
          rw [List.countP_eq_zero]
          intro adm hadm hopen
          rw [Bool.and_eq_true, beq_iff_eq, Bool.not_eq_true'] at hopen
          exact hnone adm hadm hopen.1 hopen.2
        omega
      · exact hc.unique stop

/-! ## Runs -/

theorem Continuations.sound_start : Continuations.start.Sound where
  issued _ h := by cases h
  tasks _ _ h := by cases h
  distinct := List.nodup_nil
  admitted _ h := by cases h
  successors := List.nodup_nil
  claims _ _ h := by cases h
  pins _ _ h := by cases h

theorem coherent_start : Continuations.start.Coherent where
  unique _ := Nat.zero_le _
  lineage _ h := by cases h

theorem Continuations.Sound.release (h : x.Sound) (stop successor : String) :
    Continuations.Sound ⟨releaseContinuation stop successor x.journal, x.tasks,
      x.admitted.map (Admission.release stop successor), x.issued, x.mentioned⟩ := by
  refine h.frame (Admission.same_release stop successor) (fun _ hid => hid) ?_ fun _ _ hrow => .inl hrow
  intro stop' row hrow
  rw [releaseContinuation, Dict.get?_filter, Option.filter_eq_some_iff] at hrow
  exact hrow.1

theorem Continuations.Sound.prune (h : x.Sound) (p : Prunable) (cutoff : ℚ) :
    Continuations.Sound ⟨prune p cutoff x.journal, x.tasks, x.admitted, x.issued, x.mentioned⟩ := by
  refine h.tables (fun _ hid => hid) ?_ ?_
  · intro stop row hrow
    rw [Pipeline.prune, Dict.get?_filter, Option.filter_eq_some_iff] at hrow
    exact hrow.1
  · intro root row hrow
    rw [Pipeline.prune, Dict.get?_filter, Option.filter_eq_some_iff] at hrow
    exact .inl hrow.1

theorem Continuations.Sound.pin (h : x.Sound) {root : String} (hroot : root ∉ x.issued) (row : LineageRow) :
    Continuations.Sound ⟨writeLineageRoot root row x.journal, x.tasks, x.admitted, x.issued,
      root :: x.mentioned⟩ := by
  unfold writeLineageRoot
  split
  · exact h.tables (fun _ => List.mem_cons_of_mem _) (fun _ _ hrow => hrow) fun _ _ hrow => .inl hrow
  · refine h.tables (fun _ => List.mem_cons_of_mem _) (fun _ _ hrow => hrow) fun root' row' hrow => ?_
    by_cases heq : root' = root
    · subst heq
      exact .inr ⟨List.mem_cons_self, hroot⟩
    · rw [Dict.get?_set_ne _ heq] at hrow
      exact .inl hrow

theorem countP_release_le (l : List Admission) (stop successor stop' : String) :
    ((l.map (Admission.release stop successor)).countP fun adm => adm.stop == stop' && !adm.released) ≤
      l.countP fun adm => adm.stop == stop' && !adm.released := by
  rw [List.countP_map]
  refine List.countP_mono_left fun adm _ hopen => ?_
  simp only [Function.comp_apply, Admission.release] at hopen
  split at hopen
  · simp at hopen
  · exact hopen

theorem start_phase : ∀ phase ∈ a.start.getLeft?, phase = .fetching := by
  intro phase hphase
  unfold AssessArgs.start at hphase
  split at hphase
  · cases hphase
  · exact (Option.some.inj hphase).symm

/-- **One step.** -/
theorem coherent_step (h : x.Sound) (e : ContinuationEvent) :
    (x.step e).Sound ∧ (x.Coherent → ((x.step e).Coherent ↔ e.Keeps x)) := by
  -- A step without admission is coherent when it leaves as many open ones at most.
  have hsteady : ∀ {x' : Continuations}, x'.Sound → (∀ stop,
      (x'.admitted.countP fun adm => adm.stop == stop && !adm.released) ≤
        x.admitted.countP fun adm => adm.stop == stop && !adm.released) →
      x'.Sound ∧ (x.Coherent → (x'.Coherent ↔ True)) := fun hsound hle =>
    ⟨hsound, fun hc => iff_of_true ((coherent_iff_unique hsound).2 fun stop =>
      (hle stop).trans (hc.unique stop)) trivial⟩
  cases e with
  | assess a =>
    simp only [Continuations.step]
    split
    · exact hsteady h fun _ => le_rfl
    · rename_i hnew
      rw [Bool.or_eq_true, not_or, beq_iff_eq, List.contains_iff_mem] at hnew
      exact hsteady (h.assess hnew.1 hnew.2 a.start.getLeft? start_phase) fun _ => le_rfl
  | advance i =>
    simp only [Continuations.step]
    rcases hi : x.tasks[i]? with - | ⟨a, phase⟩
    · refine ⟨h, fun hc => iff_of_true hc fun a phase hsome => ?_⟩
      rw [hi] at hsome
      cases hsome
    · obtain ⟨hsound, hiff⟩ := h.proceed hi
      refine ⟨hsound, fun hc => (hiff hc).trans ⟨fun hkeep a' phase' hsome => ?_, fun hkeep => hkeep a phase hi⟩⟩
      obtain ⟨rfl, rfl⟩ := Prod.mk.inj (Option.some.inj (hi.symm.trans hsome))
      exact hkeep
  | drop i =>
    exact hsteady (h.tasks_of (fun b phase hb => .inl (List.mem_of_mem_eraseIdx hb)) (nodup_eraseIdx h i))
      fun _ => le_rfl
  | release stop successor =>
    simp only [Continuations.step]
    split
    · exact hsteady (h.release stop successor) (countP_release_le _ _ _)
    · exact hsteady h fun _ => le_rfl
  | prune p cutoff => exact hsteady (h.prune p cutoff) fun _ => le_rfl
  | pin root row =>
    simp only [Continuations.step]
    split
    · exact hsteady h fun _ => le_rfl
    · rename_i hroot
      exact hsteady (h.pin (by simpa using hroot) row) fun _ => le_rfl
  | record executionId r =>
    exact hsteady (h.tables (j := { x.journal with records := x.journal.records.set executionId r })
      (fun _ => List.mem_cons_of_mem executionId) (fun _ _ hrow => hrow) fun _ _ hrow => .inl hrow)
      fun _ => le_rfl

/-- **A stop has one admitted successor that is not released, at most, exactly in the runs in which the claim row
of an admitted successor is there whenever another assessment claims the stop or reads the row that has beaten it;
admitted successors continue the lineage of their stops, and the walk returns on every table.** -/
theorem coherent_iff (events : List ContinuationEvent) :
    (System.Throughout Continuations.step Continuations.Coherent .start events ↔
      System.EachStep Continuations.step (fun x e => e.Keeps x) .start events) ∧
    ∀ (j : Journal) (stop : String),
      (resolveLineageRoot j stop (2 * j.claims.items.length + 2) (.start stop)).isSome :=
  ⟨System.throughout_iff_eachStep (W := Continuations.Sound) (fun _ e h => (coherent_step h e).1)
    (fun _ e h hc => (coherent_step h e).2 hc) Continuations.sound_start coherent_start events,
    resolveLineageRoot_isSome⟩

/-- A run that completed with a stop. -/
def stoppedRun : DispatchRecord where
  pipeline := "review"
  status := .completed
  callerAgent := none
  startedAt := "2026-01-05T10:00:00Z"
  completedAt := some "2026-01-05T10:05:00Z"
  completedAtEpoch := some 300
  updatedAt := "2026-01-05T10:05:00Z"
  updatedAtEpoch := 300
  recordJson := [("result", .obj [("stop", .str "approval")])]

def continuationOf (successor : String) : AssessArgs := ⟨"r", successor, "sha", "review", "2026-01-12T10:05:00Z"⟩

/-- The second assessment has checked the pin when the first one claims, and the stopped run is pruned before the
second one claims. -/
def prunedClaim : List ContinuationEvent :=
  [.record "r" stoppedRun, .pin "r" ⟨"review", "1", "sha", "text", ""⟩, .assess (continuationOf "s1"),
    .assess (continuationOf "s2"), .advance 1, .advance 1, .advance 1, .advance 0, .advance 0, .advance 0,
    .advance 0, .prune .completed 301, .advance 0]

/-- Both are admitted, and neither is released. -/
theorem prunedClaim_not_coherent :
    (prunedClaim.foldl Continuations.step .start).admitted.map (fun adm => (adm.stop, adm.successor, adm.released)) =
      [("r", "s1", false), ("r", "s2", false)] ∧
    ¬ System.Throughout Continuations.step Continuations.Coherent .start prunedClaim := by
  have hboth : (prunedClaim.foldl Continuations.step .start).admitted.map
      (fun adm => (adm.stop, adm.successor, adm.released)) = [("r", "s1", false), ("r", "s2", false)] := by
    decide
  have hcount : ((prunedClaim.foldl Continuations.step .start).admitted.countP fun adm =>
      adm.stop == "r" && !adm.released) = 2 := by decide
  refine ⟨hboth, ?_⟩
  rintro ⟨-, -, -, -, -, -, -, -, -, -, -, -, -, h⟩
  have hle := h.unique "r"
  change ((prunedClaim.foldl Continuations.step .start).admitted.countP fun adm =>
    adm.stop == "r" && !adm.released) ≤ 1 at hle
  omega

end LlmGateway.Pipeline
