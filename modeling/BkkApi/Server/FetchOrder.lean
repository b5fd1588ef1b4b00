import BkkApi.Server.Fetching

/-!
# Does cached data go back in time?

`put_element` overwrites whatever is there, and nothing orders the calls for one
stop id: the last writer wins, whatever its timestamp.  An entry can therefore
be replaced by an older one, but in one way only.  `overtaken_of_back` says that
another call for the same stop id must have read the clock later and written
earlier, in between this call's stamp and its write.  When no call reads the
clock inside such a gap of another call for its stop id, the timestamps under
every stop id only grow (`Ordered`).
-/

namespace BkkApi.Server.FetchOrder

open BkkApi.Verified.CData
open BkkApi.Verified.Run
open BkkApi.Server.Cache
open BkkApi.Server.ResponseParser
open BkkApi.Server.Fetching

variable {cJsonParse : Bytes → Option CJson} {config : SoundConfig}
  {s t : Fetches}

/-- The entry under the stop id, when there is one before and after, has not
been replaced by an older one. -/
def NotBack (stopId : Bytes) (s t : Fetches) : Prop :=
  ∀ entry entry', s.cache.cache.lookup stopId = some entry →
    t.cache.cache.lookup stopId = some entry' →
    entry.timestamp.count ≤ entry'.timestamp.count

/-- Two calls for the stop id overlap: one has stamped `older` and is about to
write it, the other has stamped `newer` later and written it already. -/
def Overtaken (s : Fetches) (stopId : Bytes) (newer older : CacheEntry) : Prop :=
  older.timestamp.count < newer.timestamp.count ∧
    ∃ (j k : Nat) (other call : Call), j ≠ k ∧
      s.calls[j]? = some other ∧ other.stopId = stopId ∧
      other.pc.published? = some newer ∧
      s.calls[k]? = some call ∧ call.stopId = stopId ∧
      call.pc = .stamped older

/-- No call reads the clock while another call for the same stop id is between
its own reading and its write. -/
def ReadsClockAlone (s : Fetches) : Action → Prop
  | .advance k _ =>
      ∀ call arrivals, s.calls[k]? = some call → call.pc = .fetched arrivals →
        ∀ (j : Nat) (other : Call), s.calls[j]? = some other →
          other.stopId = call.stopId → ∀ entry, other.pc ≠ .stamped entry
  | _ => True

/-! ## How an entry is replaced -/

/-- A step that puts an older entry in the place of a newer one is a write that
has been overtaken. -/
theorem overtaken_of_back {guard : Fetches → Action → Prop}
    (h : (machine cJsonParse config).ReachableIf guard s) {a : Action}
    (hstep : step cJsonParse s a = some t) {stopId : Bytes}
    {entry entry' : CacheEntry}
    (hbefore : s.cache.cache.lookup stopId = some entry)
    (hafter : t.cache.cache.lookup stopId = some entry')
    (hback : entry'.timestamp.count < entry.timestamp.count) :
    Overtaken s stopId entry entry' := by
  rcases lookup_cases hstep hafter with hsame |
    ⟨k, upstream, call, rfl, hcall, hstop, hpc, -⟩
  · cases Option.some.inj (hbefore.symm.trans hsame)
    exact absurd hback (Nat.lt_irrefl _)
  · obtain ⟨j, other, hother, hstop', hpublished⟩ :=
      sourced_of_reachable h stopId entry hbefore
    have hjk : j ≠ k := by
      rintro rfl
      cases Option.some.inj (hother.symm.trans hcall)
      rw [hpc] at hpublished
      cases hpublished
    exact ⟨hback, j, k, other, call, hjk, hother, hstop', hpublished, hcall,
      hstop, hpc⟩

/-! ## Timestamps are readings of the clock -/

/-- A call that is about to write was so before, or has just read the clock. -/
theorem stamped_cases {a : Action} (hstep : step cJsonParse s a = some t)
    {j : Nat} {call' : Call} {entry : CacheEntry}
    (hcall' : t.calls[j]? = some call') (hpc' : call'.pc = .stamped entry) :
    s.calls[j]? = some call' ∨
      ∃ upstream call arrivals, a = .advance j upstream ∧
        s.calls[j]? = some call ∧ call.pc = .fetched arrivals ∧
        call'.stopId = call.stopId ∧ entry.timestamp = s.now ∧
        t.cache = s.cache := by
  rcases call_cases hstep hcall' with hold | ⟨request, rfl⟩ |
    ⟨upstream, call, rfl, hcall, hadvance⟩
  · exact .inl hold
  · cases hpc'
  · have hself := getElem?_setPc_self hcall
    cases hadvance with
    | init hpc =>
        cases Option.some.inj ((hself _).symm.trans hcall')
        simp only [Call.afterInit] at hpc'
        split at hpc'
        · cases hpc'
        · split at hpc' <;> cases hpc'
    | transfer hpc =>
        cases Option.some.inj ((hself _).symm.trans hcall')
        simp only [Call.afterTransfer] at hpc'
        split at hpc' <;> cases hpc'
    | stamp hpc =>
        cases Option.some.inj ((hself _).symm.trans hcall')
        cases hpc'
        exact .inr ⟨upstream, call, _, rfl, hcall, hpc, rfl, rfl, rfl⟩
    | write hpc | sweep hpc =>
        cases Option.some.inj ((hself _).symm.trans hcall')
        cases hpc'

/-- Timestamps do not lie in the future. -/
structure Past (s : Fetches) : Prop where
  cached : ∀ stopId entry, s.cache.cache.lookup stopId = some entry →
    entry.timestamp.count ≤ s.now.count
  stamped : ∀ (k : Nat) (call : Call) (entry : CacheEntry),
    s.calls[k]? = some call → call.pc = .stamped entry →
    entry.timestamp.count ≤ s.now.count

theorem now_le_of_step {a : Action} (hstep : step cJsonParse s a = some t) :
    s.now.count ≤ t.now.count := by
  rcases step_cases hstep with ⟨later, rfl, hle, rfl⟩ | ⟨request, rfl, rfl⟩ |
    ⟨k, upstream, call, rfl, -, hadvance⟩
  · exact hle
  · exact Nat.le_refl _
  · cases hadvance with
    | init hpc | transfer hpc | stamp hpc | write hpc | sweep hpc =>
        exact Nat.le_refl _

theorem Past.step {a : Action} (h : Past s)
    (hstep : step cJsonParse s a = some t) : Past t := by
  have hnow := now_le_of_step hstep
  constructor
  · intro stopId entry hlookup
    rcases lookup_cases hstep hlookup with hold |
      ⟨k, upstream, call, -, hcall, -, hpc, -⟩
    · exact Nat.le_trans (h.cached stopId entry hold) hnow
    · exact Nat.le_trans (h.stamped k call entry hcall hpc) hnow
  · intro k call entry hcall hpc
    rcases stamped_cases hstep hcall hpc with hold |
      ⟨upstream, old, arrivals, -, -, -, -, hread, -⟩
    · exact Nat.le_trans (h.stamped k call entry hold hpc) hnow
    · rw [hread]
      exact hnow

theorem past_of_reachable {guard : Fetches → Action → Prop}
    (h : (machine cJsonParse config).ReachableIf guard s) : Past s := by
  apply Machine.ReachableIf.invariant ?_ ?_ h
  · rintro s ⟨hcache, hnil⟩
    constructor
    · intro stopId entry hlookup
      rw [hcache] at hlookup
      cases hlookup
    · intro k call entry hcall
      simp [hnil] at hcall
  · intro s a t _ _ hs hstep
    exact hs.step hstep

/-! ## Without overlaps -/

/-- For each stop id at most one call is about to write, and what it is about to
write is at least as new as what it replaces. -/
structure Ordered (s : Fetches) : Prop where
  unique : ∀ (j k : Nat) (other call : Call) (e e' : CacheEntry),
    s.calls[j]? = some other → s.calls[k]? = some call →
    other.stopId = call.stopId → other.pc = .stamped e →
    call.pc = .stamped e' → j = k
  newest : ∀ (k : Nat) (call : Call) (cached entry : CacheEntry),
    s.calls[k]? = some call → call.pc = .stamped entry →
    s.cache.cache.lookup call.stopId = some cached →
    cached.timestamp.count ≤ entry.timestamp.count

theorem Ordered.step {a : Action} (h : Ordered s) (hpast : Past s)
    (hguard : ReadsClockAlone s a) (hstep : step cJsonParse s a = some t) :
    Ordered t := by
  constructor
  · intro j k other call e e' hother hcall hstop hpc hpc'
    rcases stamped_cases hstep hother hpc with hold |
      ⟨upstream, old, arrivals, ha, hold, hfetched, hstop₁, -, -⟩
    · rcases stamped_cases hstep hcall hpc' with hold' |
        ⟨upstream, old', arrivals, rfl, hold', hfetched, hstop₂, -, -⟩
      · exact h.unique j k other call e e' hold hold' hstop hpc hpc'
      · exact absurd hpc (hguard old' arrivals hold' hfetched j other hold
          (hstop.trans hstop₂) e)
    · rcases stamped_cases hstep hcall hpc' with hold' |
        ⟨upstream', old', arrivals', ha', -, -, -, -, -⟩
      · subst ha
        exact absurd hpc' (hguard old arrivals hold hfetched k call hold'
          (hstop.symm.trans hstop₁) e')
      · rw [ha] at ha'
        cases ha'
        rfl
  · intro k call cached entry hcall hpc hlookup
    rcases stamped_cases hstep hcall hpc with hold |
      ⟨upstream, old, arrivals, -, -, -, hstop, hread, hcache⟩
    · rcases lookup_cases hstep hlookup with hcached |
        ⟨j, upstream, other, rfl, hother, hstop, hpc', hwritten⟩
      · exact h.newest k call cached entry hold hpc hcached
      · -- the writer would be a second call about to write
        cases h.unique j k other call cached entry hother hold hstop hpc' hpc
        cases Option.some.inj (hwritten.symm.trans hcall)
        cases hpc
    · rw [hread]
      exact hpast.cached _ _ (hcache ▸ hlookup)

theorem ordered_of_reachable
    (h : (machine cJsonParse config).ReachableIf ReadsClockAlone s) :
    Ordered s := by
  apply Machine.ReachableIf.invariant ?_ ?_ h
  · rintro s ⟨-, hnil⟩
    constructor
    · intro j k other call e e' hother
      simp [hnil] at hother
    · intro k call cached entry hcall
      simp [hnil] at hcall
  · intro s a t hreach hguard hs hstep
    exact hs.step (past_of_reachable hreach) hguard hstep

theorem notBack_of_step
    (h : (machine cJsonParse config).ReachableIf ReadsClockAlone s)
    {a : Action} (hstep : step cJsonParse s a = some t) (stopId : Bytes) :
    NotBack stopId s t := by
  intro entry entry' hbefore hafter
  rcases lookup_cases hstep hafter with hsame |
    ⟨k, upstream, call, rfl, hcall, hstop, hpc, -⟩
  · cases Option.some.inj (hbefore.symm.trans hsame)
    exact Nat.le_refl _
  · exact (ordered_of_reachable h).newest k call entry entry' hcall hpc
      (hstop ▸ hbefore)

/-- The runs without overlaps in which the stop id is not evicted. -/
def KeepsEntry (stopId : Bytes) (s : Fetches) (a : Action) : Prop :=
  ReadsClockAlone s a ∧ (s.cache.cache.lookup stopId).isSome

theorem notBack_of_leadsTo {stopId : Bytes}
    (h : (machine cJsonParse config).ReachableIf ReadsClockAlone s)
    (hlead : (machine cJsonParse config).LeadsTo (KeepsEntry stopId) s t) :
    (machine cJsonParse config).ReachableIf ReadsClockAlone t ∧
      NotBack stopId s t := by
  induction hlead with
  | refl =>
      refine ⟨h, fun entry entry' hbefore hafter => ?_⟩
      cases Option.some.inj (hbefore.symm.trans hafter)
      exact Nat.le_refl _
  | step _ hguard hstep ih =>
      obtain ⟨hreach, hback⟩ := ih
      refine ⟨.step hreach hguard.1 hstep, fun entry entry' hbefore hafter => ?_⟩
      obtain ⟨middle, hmiddle⟩ := Option.isSome_iff_exists.1 hguard.2
      exact Nat.le_trans (hback entry middle hbefore hmiddle)
        (notBack_of_step hreach hstep stopId middle entry' hmiddle hafter)

/-- **Last writer wins.**  An older entry replaces a newer one only in a write
that has been overtaken; in a run without overlaps it never does, and the
timestamps that lookups of a stop id observe between two of its evictions never
decrease. -/
theorem back_only_when_overtaken
    (h : (machine cJsonParse config).Reachable s) (stopId : Bytes) :
    (∀ a t entry entry', step cJsonParse s a = some t →
        s.cache.cache.lookup stopId = some entry →
        t.cache.cache.lookup stopId = some entry' →
        entry'.timestamp.count < entry.timestamp.count →
        Overtaken s stopId entry entry') ∧
      ((machine cJsonParse config).ReachableIf ReadsClockAlone s →
        (∀ a t, step cJsonParse s a = some t → NotBack stopId s t) ∧
        ∀ t state state' entry entry',
          (machine cJsonParse config).LeadsTo (KeepsEntry stopId) s t →
          s.cache.getElement stopId s.now = (state, some entry) →
          t.cache.getElement stopId t.now = (state', some entry') →
          entry.timestamp.count ≤ entry'.timestamp.count) := by
  refine ⟨?_, fun halone => ⟨?_, ?_⟩⟩
  · intro a t entry entry' hstep hbefore hafter hback
    exact overtaken_of_back h hstep hbefore hafter hback
  · intro a t hstep
    exact notBack_of_step halone hstep stopId
  · intro t state state' entry entry' hlead hbefore hafter
    exact (notBack_of_leadsTo halone hlead).2 entry entry'
      (UdsCache.getElement_hit hbefore).1 (UdsCache.getElement_hit hafter).1

/-! ## Sample runs -/

/-- No call but the one that goes on is between its reading of the clock and its
write. -/
def othersUnstamped (s : Fetches) : Action → Bool
  | .advance k _ => (s.calls.eraseIdx k).all fun other =>
      match other.pc with
      | .stamped _ => false
      | _ => true
  | _ => true

theorem readsClockAlone_of_othersUnstamped (s : Fetches) (a : Action)
    (h : othersUnstamped s a = true) : ReadsClockAlone s a := by
  cases a with
  | tick later | call request => trivial
  | advance k upstream =>
      intro call arrivals hcall hfetched j other hother _ entry hstamped
      have hjk : j ≠ k := by
        rintro rfl
        cases Option.some.inj (hcall.symm.trans hother)
        rw [hfetched] at hstamped
        cases hstamped
      have hnone := List.all_eq_true.1 h other
        (List.mem_eraseIdx_iff_getElem?.2 ⟨j, hjk, hother⟩)
      rw [hstamped] at hnone
      cases hnone

/-- Two calls for one stop: the first stamps at 0, the second stamps at 5 and
writes, and the write of the first comes after it. -/
private theorem exists_overtaken :
    ∃ (s t : Fetches) (newer older : CacheEntry),
      (machine sampleParse sampleConfig).Reachable s ∧
        step sampleParse s (.advance 0 sampleUpstream) = some t ∧
        s.cache.cache.lookup [70] = some newer ∧
        t.cache.cache.lookup [70] = some older ∧
        older.timestamp.count < newer.timestamp.count := by
  obtain ⟨s, hreach, hs⟩ := Machine.exists_reachable_of_run
    (M := machine sampleParse sampleConfig) (s := sampleStart) ⟨rfl, rfl⟩
    (l := [.call sampleRequest, .call sampleRequest,
      .advance 0 sampleUpstream, .advance 1 sampleUpstream,
      .advance 0 sampleUpstream, .advance 1 sampleUpstream,
      .advance 0 sampleUpstream, .tick ⟨5, by decide⟩,
      .advance 1 sampleUpstream, .advance 1 sampleUpstream])
    (p := fun s => decide
      ((s.cache.cache.lookup [70]).map (·.timestamp.count) = some 5 ∧
        ((step sampleParse s (.advance 0 sampleUpstream)).bind fun t =>
          (t.cache.cache.lookup [70]).map (·.timestamp.count)) = some 0))
    (by decide +kernel)
  obtain ⟨hbefore, hafter⟩ := of_decide_eq_true hs
  obtain ⟨newer, hnewer, hfive⟩ := Option.map_eq_some_iff.1 hbefore
  obtain ⟨t, ht, hmap⟩ := Option.bind_eq_some_iff.1 hafter
  obtain ⟨older, holder, hzero⟩ := Option.map_eq_some_iff.1 hmap
  exact ⟨s, t, newer, older, hreach, ht, hnewer, holder, by omega⟩

/-- Two calls for one stop, one after the other: the first stamps at 0, the
second at 5. -/
private theorem exists_alone :
    ∃ (s t : Fetches) (old new : CacheEntry),
      (machine sampleParse sampleConfig).ReachableIf ReadsClockAlone s ∧
        (machine sampleParse sampleConfig).LeadsTo (KeepsEntry [70]) s t ∧
        (s.cache.getElement [70] s.now).2 = some old ∧
        (t.cache.getElement [70] t.now).2 = some new ∧
        new.timestamp.count = 5 := by
  obtain ⟨s, hreach, hs⟩ := Machine.exists_reachableIf_of_runIf
    (M := machine sampleParse sampleConfig) (s := sampleStart)
    readsClockAlone_of_othersUnstamped ⟨rfl, rfl⟩
    (l := .call sampleRequest :: List.replicate 5 (.advance 0 sampleUpstream))
    (p := fun s => decide (
      (s.cache.getElement [70] s.now).2.isSome = true ∧
      (((machine sampleParse sampleConfig).runIf
        (fun s a => othersUnstamped s a && (s.cache.cache.lookup [70]).isSome) s
        (.tick ⟨5, by decide⟩ :: .call sampleRequest ::
          List.replicate 5 (.advance 1 sampleUpstream))).bind fun t =>
            (t.cache.getElement [70] t.now).2.map (·.timestamp.count)) =
        some 5))
    (by decide +kernel)
  obtain ⟨hbefore, hafter⟩ := of_decide_eq_true hs
  obtain ⟨t, hrun, ht⟩ := Option.bind_eq_some_iff.1 hafter
  obtain ⟨old, hold⟩ := Option.isSome_iff_exists.1 hbefore
  obtain ⟨new, hnew, hfive⟩ := Option.map_eq_some_iff.1 ht
  refine ⟨s, t, old, new, hreach, .of_runIf ?_ .refl hrun, hold, hnew, hfive⟩
  intro s a h
  rw [Bool.and_eq_true] at h
  exact ⟨readsClockAlone_of_othersUnstamped s a h.1, h.2⟩

/-- The overtaken write, and the run in which nothing is overtaken. -/
theorem back_only_when_overtaken_sample :
    (∃ (s : Fetches) (newer older : CacheEntry),
      (machine sampleParse sampleConfig).Reachable s ∧
        Overtaken s [70] newer older) ∧
      ∃ (s t : Fetches) (old new : CacheEntry),
        (machine sampleParse sampleConfig).ReachableIf ReadsClockAlone s ∧
        (machine sampleParse sampleConfig).LeadsTo (KeepsEntry [70]) s t ∧
        old.timestamp.count ≤ new.timestamp.count ∧
        new.timestamp.count = 5 := by
  constructor
  · obtain ⟨s, t, newer, older, hreach, hstep, hnewer, holder, hback⟩ :=
      exists_overtaken
    exact ⟨s, newer, older, hreach, (back_only_when_overtaken hreach [70]).1
      _ t newer older hstep hnewer holder hback⟩
  · obtain ⟨s, t, old, new, hreach, hlead, hold, hnew, hfive⟩ := exists_alone
    have hle := ((back_only_when_overtaken hreach.reachable [70]).2 hreach).2
      t _ _ old new hlead (Prod.ext rfl hold) (Prod.ext rfl hnew)
    exact ⟨s, t, old, new, hreach, hlead, hle, hfive⟩

/-- An older entry does replace a newer one. -/
theorem cached_data_goes_back :
    ¬ ∀ (cJsonParse : Bytes → Option CJson) (config : SoundConfig)
        (s t : Fetches) (a : Action) (stopId : Bytes),
      (machine cJsonParse config).Reachable s →
        step cJsonParse s a = some t → NotBack stopId s t := by
  intro h
  obtain ⟨s, t, newer, older, hreach, hstep, hnewer, holder, hback⟩ :=
    exists_overtaken
  have hle := h sampleParse sampleConfig s t _ [70] hreach hstep newer older
    hnewer holder
  omega

end BkkApi.Server.FetchOrder
