import LlmGateway.DispatchMonitor.SdkFold
import LlmGateway.Foundations.System

/-!
# The correlation index

The index keeps, for the dispatches and for the CDP legs, a forward map to the root and a bucket of ids for each
root. A link sets the forward map and adds to one bucket, and takes nothing out of another. The two directions
agree (`Bidirectional`) for as long as no id gets a second root and no thread gets a root when a dispatch without
one was recorded for it: `Steady` is that condition on one call, and it is exact (`links_throughout_iff`).
-/

namespace LlmGateway.DispatchMonitor

/-! ## Two-way maps -/

section TwoWay

variable {κ ρ : Type*} [DecidableEq κ] [DecidableEq ρ]

/-- `bucket = d.setdefault(r, [])`, and `bucket.append(k)` if `k` is not in it. -/
def addTo (buckets : Dict ρ (List κ)) (r : ρ) (k : κ) : Dict ρ (List κ) :=
  let bucket := buckets.getD r []
  buckets.set r (if bucket.contains k then bucket else bucket ++ [k])

theorem mem_addTo {buckets : Dict ρ (List κ)} {r r' : ρ} {k k' : κ} :
    k' ∈ (addTo buckets r k).getD r' [] ↔ k' ∈ buckets.getD r' [] ∨ k' = k ∧ r' = r := by
  rw [addTo, Dict.getD_set]
  by_cases hr : r' = r
  · subst hr
    by_cases hk : k ∈ buckets.getD r' []
    · rw [if_pos rfl, if_pos (List.contains_iff_mem.2 hk)]
      refine ⟨.inl, ?_⟩
      rintro (h | ⟨rfl, -⟩)
      · exact h
      · exact hk
    · rw [if_pos rfl, if_neg (mt List.contains_iff_mem.1 hk), List.mem_append, List.mem_singleton]
      simp
  · simp [hr]

/-- The two directions of a map agree. -/
def Agree (forward : κ → Option ρ) (buckets : Dict ρ (List κ)) : Prop :=
  ∀ k r, k ∈ buckets.getD r [] ↔ forward k = some r

/-- **A link keeps the directions in agreement exactly if the id has no other root.** -/
theorem Agree.link_iff {forward : κ → Option ρ} {buckets : Dict ρ (List κ)} (h : Agree forward buckets)
    (forward' : κ → Option ρ) {k : κ} {r : ρ} (hk : forward' k = some r) (hother : ∀ k', k' ≠ k → forward' k' = forward k') :
    Agree forward' (addTo buckets r k) ↔ ∀ r', forward k = some r' → r' = r := by
  constructor
  · intro h' r' hr'
    have hmem : k ∈ (addTo buckets r k).getD r' [] := mem_addTo.2 (.inl ((h k r').2 hr'))
    exact Option.some.inj (((h' k r').1 hmem).symm.trans hk)
  · intro hone k' r'
    rw [mem_addTo, h]
    by_cases hk' : k' = k
    · subst hk'
      rw [hk, Option.some.injEq]
      constructor
      · rintro (hr' | ⟨-, rfl⟩)
        · exact (hone r' hr').symm
        · rfl
      · rintro rfl
        exact .inr ⟨rfl, rfl⟩
    · simp [hk', hother k' hk']

end TwoWay

/-! ## The index -/

/-- `CorrelationIndex`, with the links of the CDP legs. -/
structure Links extends CorrelationIndex where
  rootByCdp : Dict String String
  cdpByRoot : Dict String (List String)

/-- A call that writes to the index. -/
inductive LinkCall where
  | rootWorkerThread (rootId workerThread : String)
  | dispatch (dispatchId : String) (rootId threadId : Option String)
  | cdpLeg (requestId : String) (rootId : Option String)

namespace Links

/-- `CorrelationIndex()`. -/
def new : Links := ⟨.empty, ∅, ∅⟩

def linkRootWorkerThread (x : Links) (rootId workerThread : String) : Links :=
  if rootId != "" && workerThread != "" then
    { x with rootByWorkerThread := x.rootByWorkerThread.set workerThread rootId }
  else x

def linkDispatch (x : Links) (dispatchId : String) (rootId threadId : Option String) : Links :=
  { x with toCorrelationIndex := x.toCorrelationIndex.linkDispatch dispatchId rootId threadId }

def linkCdpLeg (x : Links) (requestId : String) (rootId : Option String) : Links :=
  match rootId.filter (· != "") with
  | none => x
  | some root =>
    if requestId = "" then x
    else
      { x with
        rootByCdp := x.rootByCdp.set requestId root
        cdpByRoot := addTo x.cdpByRoot root requestId }

def rootForCdp (x : Links) (requestId : String) : Option String := x.rootByCdp.get? requestId

def dispatchesForRoot (x : Links) (rootId : String) : List String := x.dispatchesByRoot.getD rootId []

def cdpLegsForRoot (x : Links) (rootId : String) : List String := x.cdpByRoot.getD rootId []

def call (x : Links) : LinkCall → Links
  | .rootWorkerThread rootId workerThread => x.linkRootWorkerThread rootId workerThread
  | .dispatch dispatchId rootId threadId => x.linkDispatch dispatchId rootId threadId
  | .cdpLeg requestId rootId => x.linkCdpLeg requestId rootId

/-- The index answers the same in both directions. -/
structure Bidirectional (x : Links) : Prop where
  dispatches : ∀ d r, d ∈ x.dispatchesForRoot r ↔ x.rootForDispatch d = some r
  legs : ∀ l r, l ∈ x.cdpLegsForRoot r ↔ x.rootForCdp l = some r

/-- The root that a call of `link_dispatch` gives its dispatch. -/
def resolvedRoot (x : Links) (rootId threadId : Option String) : Option String :=
  ((rootId.filter (· != "")).orElse fun _ => x.rootForThread threadId).filter (· != "")

/-- A call gives no second root: not to its dispatch or leg, and no first one to a thread when a dispatch without
a root was recorded for it. -/
def Steady (x : Links) : LinkCall → Prop
  | .rootWorkerThread rootId workerThread => rootId ≠ "" → workerThread ≠ "" →
      ∀ e ∈ x.threadByDispatch.items, e.2 = workerThread → x.rootForDispatch e.1 ≠ none
  | .dispatch dispatchId rootId threadId => dispatchId ≠ "" →
      ∀ r ∈ x.resolvedRoot rootId threadId, ∀ r' ∈ x.rootForDispatch dispatchId, r' = r
  | .cdpLeg requestId rootId => requestId ≠ "" →
      ∀ r ∈ rootId.filter (· != ""), ∀ r' ∈ x.rootForCdp requestId, r' = r

/-! ## What every call keeps -/

/-- The roots in the index are not empty, and the dispatches in the buckets have a root of their own. -/
structure Sound (x : Links) : Prop where
  root_ne : ∀ d r, x.rootByDispatch.get? d = some r → r ≠ ""
  thread_root_ne : ∀ t r, x.rootByWorkerThread.get? t = some r → r ≠ ""
  own : ∀ d r, d ∈ x.dispatchesForRoot r → (x.rootByDispatch.get? d).isSome

theorem sound_new : new.Sound := ⟨fun _ _ h => (nomatch h), fun _ _ h => (nomatch h), fun _ _ h => (nomatch h)⟩

theorem bidirectional_new : new.Bidirectional :=
  ⟨fun _ _ => ⟨fun h => (nomatch h), fun h => (nomatch h)⟩, fun _ _ => ⟨fun h => (nomatch h), fun h => (nomatch h)⟩⟩

section Reads

variable {x : Links}

variable {d : String}

theorem rootForDispatch_of_own (hx : x.Sound) {r : String} (h : x.rootByDispatch.get? d = some r) :
    x.rootForDispatch d = some r := by
  have hne : (r != "") = true := bne_iff_ne.2 (hx.root_ne d r h)
  rw [CorrelationIndex.rootForDispatch, h, Option.filter_some, if_pos hne]
  rfl

theorem rootForDispatch_of_not_own (h : x.rootByDispatch.get? d = none) :
    x.rootForDispatch d = x.rootForThread (x.threadByDispatch.get? d) := by
  rw [CorrelationIndex.rootForDispatch, h]
  rfl

theorem Bidirectional.rootForDispatch_eq_none (hb : x.Bidirectional) (hx : x.Sound)
    (h : x.rootByDispatch.get? d = none) : x.rootForDispatch d = none := by
  rw [Option.eq_none_iff_forall_ne_some]
  intro r hr
  have hown := hx.own d r ((hb.dispatches d r).2 hr)
  rw [h] at hown
  cases hown

end Reads

/-! ### One call -/

/-- A thread is given a root. -/
def register (x : Links) (r t : String) : Links :=
  { x with rootByWorkerThread := x.rootByWorkerThread.set t r }

theorem linkRootWorkerThread_eq (x : Links) (r t : String) :
    x.linkRootWorkerThread r t = if r ≠ "" ∧ t ≠ "" then x.register r t else x := by
  unfold linkRootWorkerThread
  simp only [Bool.and_eq_true, bne_iff_ne]
  rfl

section Calls

variable {x : Links} (hx : x.Sound)

include hx

variable {d r : String} {root thread : Option String}

theorem Sound.register (hr : r ≠ "") (t : String) : (x.register r t).Sound := by
  refine ⟨hx.root_ne, fun t' r' h => ?_, hx.own⟩
  simp only [Links.register, Dict.get?_set] at h
  split at h
  · exact Option.some.inj h ▸ hr
  · exact hx.thread_root_ne t' r' h

theorem Sound.linkRootWorkerThread (r t : String) : (x.linkRootWorkerThread r t).Sound := by
  rw [linkRootWorkerThread_eq]
  split
  · rename_i h
    exact hx.register h.1 t
  · exact hx

theorem Sound.linkCdpLeg (requestId : String) (rootId : Option String) : (x.linkCdpLeg requestId rootId).Sound := by
  unfold Links.linkCdpLeg
  split
  · exact hx
  · split
    · exact hx
    · exact ⟨hx.root_ne, hx.thread_root_ne, hx.own⟩

omit hx

/-- The thread of a dispatch is set by a call that names one. -/
def noteThread (x : Links) (dispatchId : String) (threadId : Option String) : Links :=
  match threadId.filter (· != "") with
  | none => x
  | some thread => { x with threadByDispatch := x.threadByDispatch.set dispatchId thread }

/-- The root of a dispatch is set and listed. -/
def giveRoot (x : Links) (dispatchId root : String) : Links :=
  { x with
    rootByDispatch := x.rootByDispatch.set dispatchId root
    dispatchesByRoot := addTo x.dispatchesByRoot root dispatchId }

theorem rootForThread_noteThread (d : String) (t t' : Option String) :
    (x.noteThread d t).rootForThread t' = x.rootForThread t' := by
  unfold noteThread
  split <;> rfl

theorem linkDispatch_eq (hd : d ≠ "") (root thread : Option String) :
    x.linkDispatch d root thread =
      match x.resolvedRoot root thread with
      | none => x.noteThread d thread
      | some r => (x.noteThread d thread).giveRoot d r := by
  unfold linkDispatch CorrelationIndex.linkDispatch noteThread
  rw [if_neg hd]
  cases thread.filter (· != "") with
  | none | some t =>
    change ({ x with toCorrelationIndex := match x.resolvedRoot root thread with
      | none => _
      | some r => _ } : Links) = _
    cases x.resolvedRoot root thread <;> rfl

@[simp] theorem rootByDispatch_noteThread (d : String) (t : Option String) :
    (x.noteThread d t).rootByDispatch = x.rootByDispatch := by
  unfold noteThread
  split <;> rfl

@[simp] theorem rootByWorkerThread_noteThread (d : String) (t : Option String) :
    (x.noteThread d t).rootByWorkerThread = x.rootByWorkerThread := by
  unfold noteThread
  split <;> rfl

@[simp] theorem dispatchesByRoot_noteThread (d : String) (t : Option String) :
    (x.noteThread d t).dispatchesByRoot = x.dispatchesByRoot := by
  unfold noteThread
  split <;> rfl

theorem rootForDispatch_noteThread_of_ne {d' : String} (h : d' ≠ d) (t : Option String) :
    (x.noteThread d t).rootForDispatch d' = x.rootForDispatch d' := by
  unfold noteThread
  split
  · rfl
  · rw [CorrelationIndex.rootForDispatch, CorrelationIndex.rootForDispatch, Dict.get?_set_ne _ h]
    rfl

theorem Sound.noteThread (hx : x.Sound) (d : String) (t : Option String) : (x.noteThread d t).Sound := by
  refine ⟨fun d' r h => ?_, fun t' r h => ?_, fun d' r h => ?_⟩
  · exact hx.root_ne d' r (by rwa [rootByDispatch_noteThread] at h)
  · exact hx.thread_root_ne t' r (by rwa [rootByWorkerThread_noteThread] at h)
  · rw [dispatchesForRoot, dispatchesByRoot_noteThread] at h
    rw [rootByDispatch_noteThread]
    exact hx.own d' r h

theorem Sound.giveRoot (hx : x.Sound) (hr : r ≠ "") (d : String) : (x.giveRoot d r).Sound := by
  refine ⟨fun d' r' h => ?_, hx.thread_root_ne, fun d' r' h => ?_⟩
  · simp only [Links.giveRoot, Dict.get?_set] at h
    split at h
    · exact Option.some.inj h ▸ hr
    · exact hx.root_ne d' r' h
  · simp only [Links.giveRoot, Dict.get?_set]
    split
    · rfl
    · rename_i hd
      rcases mem_addTo.1 h with h | ⟨rfl, -⟩
      · exact hx.own d' r' h
      · exact absurd rfl hd

theorem ne_of_mem_resolvedRoot (h : x.resolvedRoot root thread = some r) :
    r ≠ "" := bne_iff_ne.1 (Option.filter_eq_some_iff.1 h).2

theorem Sound.linkDispatch (hx : x.Sound) (d : String) (root thread : Option String) :
    (x.linkDispatch d root thread).Sound := by
  by_cases hd : d = ""
  · rw [Links.linkDispatch, CorrelationIndex.linkDispatch, if_pos hd]
    exact hx
  · rw [linkDispatch_eq hd]
    cases hr : x.resolvedRoot root thread with
    | none => exact hx.noteThread d thread
    | some r => exact (hx.noteThread d thread).giveRoot (ne_of_mem_resolvedRoot hr) d

/-- Every call of the index keeps it sound. -/
theorem Sound.call (hx : x.Sound) (c : LinkCall) : (x.call c).Sound := by
  cases c with
  | rootWorkerThread rootId workerThread => exact hx.linkRootWorkerThread rootId workerThread
  | dispatch dispatchId rootId threadId => exact hx.linkDispatch dispatchId rootId threadId
  | cdpLeg requestId rootId => exact hx.linkCdpLeg requestId rootId

/-! ### When a call keeps the directions in agreement -/

theorem Sound.rootForThread_ne (hx : x.Sound) {t : Option String} (h : x.rootForThread t = some r) :
    r ≠ "" := by
  obtain ⟨t', -, hr⟩ := Option.bind_eq_some_iff.1 h
  exact hx.thread_root_ne t' r hr

theorem rootForThread_of_resolvedRoot (hx : x.Sound)
    (h : x.resolvedRoot root thread = none) : x.rootForThread thread = none := by
  rw [Option.eq_none_iff_forall_ne_some]
  intro r hr
  rw [resolvedRoot, Option.filter_eq_none_iff] at h
  cases hroot : root.filter (· != "") with
  | some r' =>
    have hne := (Option.filter_eq_some_iff.1 hroot).2
    rw [hroot] at h
    exact h r' rfl hne
  | none =>
    rw [hroot] at h
    exact h r hr (bne_iff_ne.2 (hx.rootForThread_ne hr))

theorem rootForDispatch_noteThread (hx : x.Sound) (hb : x.Bidirectional)
    (h : x.resolvedRoot root thread = none) (d d' : String) :
    (x.noteThread d thread).rootForDispatch d' = x.rootForDispatch d' := by
  by_cases hd : d' = d
  · subst hd
    cases hown : x.rootByDispatch.get? d' with
    | some r =>
      rw [rootForDispatch_of_own hx hown,
        rootForDispatch_of_own (hx.noteThread d' thread) (by rwa [rootByDispatch_noteThread])]
    | none =>
      rw [rootForDispatch_of_not_own (by rwa [rootByDispatch_noteThread]), rootForThread_noteThread,
        hb.rootForDispatch_eq_none hx hown]
      unfold noteThread
      split
      · rw [← rootForDispatch_of_not_own hown, hb.rootForDispatch_eq_none hx hown]
      · rename_i t ht
        obtain ⟨rfl, -⟩ := Option.filter_eq_some_iff.1 ht
        simp only [Dict.get?_set_self]
        exact rootForThread_of_resolvedRoot hx h
  · exact rootForDispatch_noteThread_of_ne hd thread

theorem rootForDispatch_giveRoot (hr : r ≠ "") (d : String) : (x.giveRoot d r).rootForDispatch d = some r := by
  have hne : (r != "") = true := bne_iff_ne.2 hr
  rw [CorrelationIndex.rootForDispatch]
  simp only [Links.giveRoot, Dict.get?_set_self, Option.filter_some, if_pos hne]
  rfl

theorem rootForDispatch_giveRoot_of_ne {d' : String} (h : d' ≠ d) (r : String) :
    (x.giveRoot d r).rootForDispatch d' = x.rootForDispatch d' := by
  rw [CorrelationIndex.rootForDispatch, CorrelationIndex.rootForDispatch]
  simp only [Links.giveRoot, Dict.get?_set_ne _ h]
  rfl

theorem bidirectional_iff {y : Links} (hb : x.Bidirectional) (hcdp : y.rootByCdp = x.rootByCdp)
    (hlegs : y.cdpByRoot = x.cdpByRoot) : y.Bidirectional ↔ Agree y.rootForDispatch y.dispatchesByRoot := by
  refine ⟨fun h => h.dispatches, fun h => ⟨h, fun l r => ?_⟩⟩
  rw [cdpLegsForRoot, rootForCdp, hcdp, hlegs]
  exact hb.legs l r

theorem linkDispatch_bidirectional_iff (hx : x.Sound) (hb : x.Bidirectional) (d : String)
    (root thread : Option String) :
    (x.linkDispatch d root thread).Bidirectional ↔ x.Steady (.dispatch d root thread) := by
  rw [bidirectional_iff (y := x.linkDispatch d root thread) hb rfl rfl]
  by_cases hd : d = ""
  · rw [Links.linkDispatch, CorrelationIndex.linkDispatch, if_pos hd]
    exact iff_of_true hb.dispatches fun h => absurd hd h
  · rw [linkDispatch_eq hd, Steady]
    cases hr : x.resolvedRoot root thread with
    | none =>
      refine iff_of_true (fun d' r => ?_) fun _ r h => nomatch h
      rw [dispatchesByRoot_noteThread, rootForDispatch_noteThread hx hb hr]
      exact hb.dispatches d' r
    | some r =>
      have hne := ne_of_mem_resolvedRoot hr
      have hfront : Agree x.rootForDispatch (x.noteThread d thread).dispatchesByRoot := by
        rw [dispatchesByRoot_noteThread]
        exact hb.dispatches
      rw [show ((x.noteThread d thread).giveRoot d r).dispatchesByRoot =
          addTo (x.noteThread d thread).dispatchesByRoot r d from rfl,
        hfront.link_iff _ (rootForDispatch_giveRoot hne d) fun d' hd' => by
          rw [rootForDispatch_giveRoot_of_ne hd', rootForDispatch_noteThread_of_ne hd']]
      simp [hd]

theorem linkCdpLeg_bidirectional_iff (hb : x.Bidirectional) (l : String) (root : Option String) :
    (x.linkCdpLeg l root).Bidirectional ↔ x.Steady (.cdpLeg l root) := by
  unfold linkCdpLeg Steady
  split
  · rename_i h
    exact iff_of_true hb fun _ r hr => by rw [h] at hr; cases hr
  · rename_i r h
    split
    · rename_i hl
      exact iff_of_true hb fun hne => absurd hl hne
    · rename_i hl
      have hagree : Agree x.rootForCdp x.cdpByRoot := hb.legs
      have hlink := hagree.link_iff (fun l' => (x.rootByCdp.set l r).get? l') (k := l) (r := r)
        (Dict.get?_set_self ..) fun l' hl' => Dict.get?_set_ne _ hl' _
      simp only [h, hl, ne_eq, not_false_eq_true, forall_true_left, Option.mem_def, Option.some.injEq,
        forall_eq']
      rw [← hlink]
      exact ⟨fun h => h.legs, fun h => ⟨hb.dispatches, h⟩⟩

theorem rootForThread_register (r t t' : String) (ht : t' ≠ "") :
    (x.register r t).rootForThread (some t') = if t' = t then some r else x.rootForThread (some t') := by
  have hne : (t' != "") = true := bne_iff_ne.2 ht
  simp only [CorrelationIndex.rootForThread, Option.filter_some, if_pos hne, Option.bind_some]
  exact Dict.get?_set ..

theorem rootForDispatch_register {t : String} (ht : t ≠ "")
    (hown : x.rootByDispatch.get? d = none) (hthread : x.threadByDispatch.get? d = some t) :
    (x.register r t).rootForDispatch d = some r := by
  rw [rootForDispatch_of_not_own (x := x.register r t) hown]
  exact (congrArg _ hthread).trans ((rootForThread_register r t t ht).trans (if_pos rfl))

theorem rootForDispatch_register_of_ne {t : String} (h : x.threadByDispatch.get? d ≠ some t) :
    (x.register r t).rootForDispatch d = x.rootForDispatch d := by
  have hread : (x.register r t).rootForThread (x.threadByDispatch.get? d) =
      x.rootForThread (x.threadByDispatch.get? d) := by
    cases hd : x.threadByDispatch.get? d with
    | none => rfl
    | some t' =>
      by_cases ht' : t' = ""
      · subst ht'
        rfl
      · rw [rootForThread_register r t t' ht', if_neg fun he => h (hd.trans (congrArg some he))]
  exact congrArg (fun o => ((x.rootByDispatch.get? d).filter (· != "")).orElse fun _ => o) hread

theorem linkRootWorkerThread_bidirectional_iff (hx : x.Sound) (hb : x.Bidirectional) (r t : String) :
    (x.linkRootWorkerThread r t).Bidirectional ↔ x.Steady (.rootWorkerThread r t) := by
  rw [linkRootWorkerThread_eq]
  split
  · rename_i h
    rw [bidirectional_iff (y := x.register r t) hb rfl rfl]
    constructor
    · rintro hagree - - ⟨d, t'⟩ he rfl hnone
      rw [Dict.mem_items_iff] at he
      cases hown : x.rootByDispatch.get? d with
      | some r' =>
        rw [rootForDispatch_of_own hx hown] at hnone
        cases hnone
      | none =>
        -- The dispatch gets a root from its thread and is in no bucket.
        have hnew := rootForDispatch_register (r := r) h.2 hown he
        have hlisted := (hb.dispatches d r).1 ((hagree d r).2 hnew)
        rw [hnone] at hlisted
        cases hlisted
    · intro hsteady d r'
      refine (hb.dispatches d r').trans (Eq.congr_left ?_).symm
      by_cases hthread : x.threadByDispatch.get? d = some t
      · cases hown : x.rootByDispatch.get? d with
        | some r₀ =>
          exact (rootForDispatch_of_own (hx.register h.1 t) hown).trans (rootForDispatch_of_own hx hown).symm
        | none =>
          exact absurd (hb.rootForDispatch_eq_none hx hown)
            (hsteady h.1 h.2 (d, t) (Dict.mem_items_iff.2 hthread) rfl)
      · exact rootForDispatch_register_of_ne hthread
  · rename_i h
    exact iff_of_true hb fun hr ht => absurd ⟨hr, ht⟩ h

/-- **A call from an index whose directions agree keeps them in agreement exactly if it is steady.** -/
theorem call_bidirectional_iff (hx : x.Sound) (hb : x.Bidirectional) (c : LinkCall) :
    (x.call c).Bidirectional ↔ x.Steady c := by
  cases c with
  | rootWorkerThread rootId workerThread => exact linkRootWorkerThread_bidirectional_iff hx hb rootId workerThread
  | dispatch dispatchId rootId threadId => exact linkDispatch_bidirectional_iff hx hb dispatchId rootId threadId
  | cdpLeg requestId rootId => exact linkCdpLeg_bidirectional_iff hb requestId rootId

end Calls

end Links

/-- **The index is bidirectional throughout a run exactly if every call of it is steady.** -/
theorem links_throughout_iff (calls : List LinkCall) :
    System.Throughout Links.call Links.Bidirectional .new calls ↔ System.EachStep Links.call Links.Steady .new calls :=
  System.throughout_iff_eachStep (W := Links.Sound) (fun _ c hx => hx.call c)
    (fun _ c hx hb => Links.call_bidirectional_iff hx hb c) Links.sound_new Links.bidirectional_new calls

/-- A dispatch with a second root stays listed for the first, and one whose thread gets its root late is listed for
none. -/
theorem secondRoot_not_bidirectional :
    ¬ (([.dispatch "d" (some "r1") none, .dispatch "d" (some "r2") none] : List LinkCall).foldl
        Links.call .new).Bidirectional ∧
      ¬ (([.dispatch "d" none (some "t"), .rootWorkerThread "r" "t"] : List LinkCall).foldl
        Links.call .new).Bidirectional := by
  constructor
  · intro h
    have hlisted := (h.dispatches "d" "r1").1 (by decide)
    revert hlisted
    decide
  · intro h
    have hlisted := (h.dispatches "d" "r").2 (by decide)
    revert hlisted
    decide

end LlmGateway.DispatchMonitor
