import BkkApi.Server.CacheSections

/-!
# Calls to the cache return

A sweep goes over the whole map under the lock, so a call costs in proportion to
the number of stop ids that have been written.  `cache_calls_return` bounds the
steps of all threads together over whole runs, with as many calls under way as
there are threads, and says that the threads only come to rest where every call
has returned: no order of locking blocks them, and no iterator is left hanging.
-/

namespace BkkApi.Server.CacheProgress

open BkkApi.Verified.CData
open BkkApi.Verified.Run
open BkkApi.Verified.Tally
open BkkApi.Verified.Critical
open BkkApi.Server.Cache
open BkkApi.Server.CacheSections

/-! ## The stop ids that are written -/

def CacheCall.writes? : CacheCall → Option Bytes
  | .write stopId _ => some stopId
  | _ => none

def Locals.writes? : Locals → Option Bytes
  | .indexing stopId _ | .assigning stopId _ => some stopId
  | _ => none

def placeWrites? : At TimePoint Locals CacheCall Answer → Option Bytes
  | .locking call => CacheCall.writes? call
  | .inside _ _ locals => Locals.writes? locals
  | _ => none

/-- Only these stop ids are written. -/
def writesIn {Thread : Type} (stopIds : List Bytes) :
    Action Thread TimePoint (List Bytes) CacheCall → Bool
  | .call _ call =>
      (CacheCall.writes? call).all fun stopId => stopIds.contains stopId
  | _ => true

def isCall {Thread : Type} :
    Action Thread TimePoint (List Bytes) CacheCall → Bool
  | .call _ _ => true
  | _ => false

/-! ## What is left to do -/

/-- The instructions up to the unlock and with it, when the map holds no more
than `size` entries. -/
def Locals.cost (size : Nat) : Locals → Nat
  | .finding _ => 4
  | .found _ | .indexing _ _ => 3
  | .timed _ _ | .assigning _ _ => 2
  | .sweeping => size + 4
  | .begun _ => size + 3
  | .looping _ rest => rest.length + 2

/-- The sweep that follows a write. -/
def tailCost (size : Nat) : CacheCall → Nat
  | .write _ _ => size + 5
  | _ => 0

def placeCost (size : Nat) : At TimePoint Locals CacheCall Answer → Nat
  | .outside | .returned _ _ => 0
  | .locking call =>
      1 + Locals.cost size (cacheSection.enter call) + tailCost size call
  | .inside call _ locals => Locals.cost size locals + tailCost size call
  | .leaving call _ => 1 + tailCost size call

/-! ## One instruction -/

section Instruction

variable {now : TimePoint} {order : List Bytes} {c c' : UdsCache}
  {locals locals' : Locals} {result : Locals ⊕ Answer}

/-- Only the two instructions of a write put anything into the map. -/
theorem mem_of_instr (h : instr now order c locals = some (c', result))
    {stopId : Bytes} (hmem : stopId ∈ c'.cache) :
    stopId ∈ c.cache ∨ Locals.writes? locals = some stopId := by
  cases locals with
  | finding other =>
      simp only [instr] at h
      split at h <;> cases h <;> exact .inl hmem
  | found entry | sweeping =>
      cases h
      exact .inl hmem
  | timed entry begun =>
      simp only [instr] at h
      split at h
      · cases h
        exact .inl hmem
      · split at h <;> cases h <;> exact .inl hmem
  | indexing other entry =>
      cases h
      by_cases hstored : other ∈ c.cache
      · rw [if_pos hstored] at hmem
        exact .inl hmem
      · rw [if_neg hstored] at hmem
        rcases (AList.mem_insert _).1 hmem with rfl | hbefore
        · exact .inr rfl
        · exact .inl hbefore
  | assigning other entry =>
      cases h
      rcases (AList.mem_insert _).1 hmem with rfl | hbefore
      · exact .inr rfl
      · exact .inl hbefore
  | begun begun =>
      simp only [instr, Option.ite_none_right_eq_some] at h
      cases h.2
      exact .inl hmem
  | looping begun rest =>
      cases rest with
      | nil =>
          cases h
          exact .inl hmem
      | cons other rest =>
          obtain ⟨entry, hlook, hsame⟩ := Option.map_eq_some_iff.1 h
          cases hsame
          by_cases hstale : c.isStale begun entry = true
          · rw [if_pos hstale] at hmem
            exact .inl (AList.mem_erase.1 hmem).2
          · rw [if_neg hstale] at hmem
            exact .inl hmem

theorem writes?_of_instr
    (h : instr now order c locals = some (c', .inl locals')) {stopId : Bytes}
    (hwrites : Locals.writes? locals' = some stopId) :
    Locals.writes? locals = some stopId := by
  cases locals with
  | finding other =>
      simp only [instr] at h
      split at h <;> cases h
      cases hwrites
  | found entry | sweeping =>
      cases h
      cases hwrites
  | timed entry begun =>
      simp only [instr] at h
      split at h
      · cases h
      · split at h <;> cases h
  | indexing other entry =>
      cases h
      exact hwrites
  | assigning other entry => cases h
  | begun begun =>
      simp only [instr, Option.ite_none_right_eq_some] at h
      cases h.2
      cases hwrites
  | looping begun rest =>
      cases rest with
      | nil => cases h
      | cons other rest =>
          obtain ⟨entry, hlook, hsame⟩ := Option.map_eq_some_iff.1 h
          cases hsame
          cases hwrites

theorem two_le_cost (size : Nat) (locals : Locals) :
    2 ≤ Locals.cost size locals := by
  cases locals <;> simp [Locals.cost]

/-- An instruction that does not end the section brings its end nearer. -/
theorem cost_of_instr (h : instr now order c locals = some (c', .inl locals'))
    {size : Nat} (hsize : c.cache.keys.length ≤ size) :
    Locals.cost size locals' < Locals.cost size locals := by
  cases locals with
  | finding other =>
      simp only [instr] at h
      split at h <;> cases h
      show 3 < 4
      omega
  | found entry =>
      cases h
      show 2 < 3
      omega
  | timed entry begun =>
      simp only [instr] at h
      split at h
      · cases h
      · split at h <;> cases h
  | indexing other entry =>
      cases h
      show 2 < 3
      omega
  | assigning other entry => cases h
  | sweeping =>
      cases h
      show size + 3 < size + 4
      omega
  | begun begun =>
      simp only [instr, Option.ite_none_right_eq_some] at h
      obtain ⟨hperm, hsame⟩ := h
      cases hsame
      have hlength := hperm.length_eq
      show order.length + 2 < size + 3
      omega
  | looping begun rest =>
      cases rest with
      | nil => cases h
      | cons other rest =>
          obtain ⟨entry, hlook, hsame⟩ := Option.map_eq_some_iff.1 h
          cases hsame
          show rest.length + 2 < (rest.length + 1) + 2
          omega

end Instruction

/-! ## Runs -/

section Runs

variable {n : Nat} {config : SoundConfig} {stopIds : List Bytes}
  {s s' : Threads (Fin n)}

/-- The map holds stop ids that were to be written. -/
structure Within (stopIds : List Bytes) (s : Threads (Fin n)) : Prop where
  stored : ∀ stopId ∈ s.data.cache, stopId ∈ stopIds
  underWay : ∀ t stopId, placeWrites? (s.threads t) = some stopId →
    stopId ∈ stopIds

theorem Within.size_le (h : Within stopIds s) :
    s.data.cache.keys.length ≤ stopIds.length := by
  have hsub : s.data.cache.keys ⊆ stopIds := fun stopId hmem =>
    h.stored stopId (AList.mem_keys.2 hmem)
  exact (s.data.cache.keys_nodup.subperm hsub).length_le

theorem Within.underWay_update (h : Within stopIds s) (t : Fin n)
    {place : At TimePoint Locals CacheCall Answer}
    (hplace : ∀ stopId, placeWrites? place = some stopId → stopId ∈ stopIds) :
    ∀ u stopId, placeWrites? (Function.update s.threads t place u) =
      some stopId → stopId ∈ stopIds :=
  (Function.forall_update_iff s.threads fun _ place =>
    ∀ stopId, placeWrites? place = some stopId → stopId ∈ stopIds).2
      ⟨hplace, fun u _ => h.underWay u⟩

theorem Within.step (h : Within stopIds s)
    {a : Action (Fin n) TimePoint (List Bytes) CacheCall}
    (ha : writesIn stopIds a = true)
    (hstep : (cacheMachine (Fin n) config).step s a = some s') :
    Within stopIds s' := by
  cases step_cases hstep with
  | tick hle => exact ⟨h.stored, h.underWay⟩
  | @call t call ht hentry =>
      refine ⟨h.stored, h.underWay_update t fun stopId hwrites => ?_⟩
      cases call with
      | write other entry =>
          cases hwrites
          exact List.contains_iff_mem.1 ha
      | get other | sweep => cases hwrites
  | @lock t call ht hfree =>
      refine ⟨h.stored, h.underWay_update t fun stopId hwrites => ?_⟩
      refine h.underWay t stopId ?_
      rw [ht]
      cases call with
      | write other entry => exact hwrites
      | get other | sweep => cases hwrites
  | @goesOn t order call entered locals locals' c ht hinstr =>
      have hbefore : ∀ stopId, Locals.writes? locals = some stopId →
          stopId ∈ stopIds := fun stopId hwrites =>
        h.underWay t stopId (by rw [ht]; exact hwrites)
      refine ⟨fun stopId hmem => ?_, h.underWay_update t fun stopId hwrites =>
        hbefore stopId (writes?_of_instr hinstr hwrites)⟩
      exact (mem_of_instr hinstr hmem).elim (h.stored stopId) (hbefore stopId)
  | @ends t order call entered locals answer c ht hinstr =>
      refine ⟨fun stopId hmem => ?_, h.underWay_update t fun stopId hwrites => ?_⟩
      · refine (mem_of_instr hinstr hmem).elim (h.stored stopId) fun hwrites => ?_
        exact h.underWay t stopId (by rw [ht]; exact hwrites)
      · cases hwrites
  | @unlock t call answer ht after hafter =>
      refine ⟨h.stored, h.underWay_update t fun stopId hwrites => ?_⟩
      rcases hafter with ⟨next, hnext, rfl⟩ | rfl
      · cases call <;> cases hnext
        cases hwrites
      · cases hwrites

theorem within_of_reachable
    (h : (cacheMachine (Fin n) config).ReachableIf
      (fun _ a => writesIn stopIds a = true) s) : Within stopIds s := by
  apply Machine.ReachableIf.invariant ?_ ?_ h
  · rintro s ⟨hdata, -, hthreads, -⟩
    constructor
    · intro stopId hmem
      rw [hdata] at hmem
      exact absurd hmem (AList.notMem_empty stopId)
    · intro t stopId hwrites
      rw [hthreads] at hwrites
      cases hwrites
  · intro s a s' _ ha hs hstep
    exact hs.step ha hstep

/-- What the threads still have to do. -/
def cacheRank (size : Nat) (s : Threads (Fin n)) : Nat :=
  total (placeCost size) s.threads

/-- The price of a call. -/
def cacheGain (size : Nat)
    (a : Action (Fin n) TimePoint (List Bytes) CacheCall) : Nat :=
  if isCall a then size + 9 else 0

/-- A step of a thread brings it nearer to its return. -/
theorem cost_of_step {size : Nat} (hsize : s.data.cache.keys.length ≤ size)
    {a : Action (Fin n) TimePoint (List Bytes) CacheCall}
    (hown : a.isOwn = true)
    (hstep : (cacheMachine (Fin n) config).step s a = some s') :
    ∃ t after, s'.threads = Function.update s.threads t after ∧
      placeCost size after < placeCost size (s.threads t) := by
  cases step_cases hstep with
  | tick hle | call ht hentry => cases hown
  | @lock t call ht hfree =>
      refine ⟨t, _, rfl, ?_⟩
      rw [ht]
      simp only [placeCost]
      omega
  | @goesOn t order call entered locals locals' c ht hinstr =>
      refine ⟨t, _, rfl, ?_⟩
      have hcost := cost_of_instr hinstr hsize
      rw [ht]
      simp only [placeCost]
      omega
  | @ends t order call entered locals answer c ht hinstr =>
      refine ⟨t, _, rfl, ?_⟩
      have hcost := two_le_cost size locals
      rw [ht]
      simp only [placeCost]
      omega
  | @unlock t call answer ht after hafter =>
      refine ⟨t, after, rfl, ?_⟩
      have hrest : placeCost size after ≤ tailCost size call := by
        rcases hafter with ⟨next, hnext, rfl⟩ | rfl
        · cases call <;> cases hnext
          show 1 + (size + 4) + 0 ≤ size + 5
          omega
        · exact Nat.zero_le _
      rw [ht]
      show placeCost size after < 1 + tailCost size call
      omega

/-- What a call may cost. -/
theorem placeCost_call (size : Nat) {call : CacheCall}
    (hentry : cacheSection.isEntry call = true) :
    placeCost size (.locking call) ≤ size + 9 := by
  cases call with
  | write stopId entry =>
      show 1 + 3 + (size + 5) ≤ size + 9
      omega
  | get stopId =>
      show 1 + 4 + 0 ≤ size + 9
      omega
  | sweep => cases hentry

theorem cachePotential :
    Machine.Potential (cacheMachine (Fin n) config)
      (fun _ a => writesIn stopIds a = true) Action.isOwn
      (cacheRank stopIds.length) (cacheGain stopIds.length) where
  pays := by
    intro s a s' hreach _ hown hstep
    obtain ⟨t, after, hthreads, hcost⟩ :=
      cost_of_step (within_of_reachable hreach).size_le hown hstep
    have htotal := total_update (placeCost stopIds.length) s.threads t after
    unfold cacheRank
    rw [hthreads]
    omega
  gains := by
    intro s a s' _ _ hown hstep
    cases step_cases hstep with
    | tick hle => exact Nat.le_add_right _ _
    | @call t call ht hentry =>
        have htotal := total_update (placeCost stopIds.length) s.threads t
          (.locking call)
        have hcost := placeCost_call stopIds.length hentry
        show total (placeCost stopIds.length)
            (Function.update s.threads t (.locking call)) ≤
          total (placeCost stopIds.length) s.threads + (stopIds.length + 9)
        omega
    | lock ht hfree | goesOn ht hinstr | ends ht hinstr | unlock ht after hafter =>
        cases hown

theorem sum_cacheGain (size : Nat)
    (l : List (Action (Fin n) TimePoint (List Bytes) CacheCall)) :
    (l.map (cacheGain size)).sum = l.countP isCall * (size + 9) := by
  induction l with
  | nil => simp
  | cons a l ih =>
      rw [List.map_cons, List.sum_cons, List.countP_cons, ih, Nat.add_mul]
      by_cases ha : isCall a = true
      · rw [cacheGain, if_pos ha, if_pos ha]
        omega
      · rw [cacheGain, if_neg ha, if_neg ha]
        omega

/-- **Calls return.**  While no stop ids but these are written, the threads take
at most nine steps and one for each of the stop ids for each call, however they
are scheduled, and where none of them can go on no call is under way. -/
theorem cache_calls_return
    {l : List (Action (Fin n) TimePoint (List Bytes) CacheCall)}
    (hinit : (cacheMachine (Fin n) config).init s)
    (hpath : (cacheMachine (Fin n) config).Path
      (fun _ a => writesIn stopIds a = true) s l s') :
    l.countP Action.isOwn ≤ l.countP isCall * (stopIds.length + 9) ∧
      ((cacheMachine (Fin n) config).Stalled (fun _ a => a.isOwn = true) s' →
        ∀ t, (s'.threads t).idle = true) := by
  have hstart : (cacheMachine (Fin n) config).ReachableIf
      (fun _ a => writesIn stopIds a = true) s := .start hinit
  constructor
  · have hwork := cachePotential.work_le hstart hpath
    have hnone : cacheRank stopIds.length s = n * 0 := by
      rw [cacheRank, hinit.2.2.1]
      exact total_const fun _ => rfl
    rw [hnone, sum_cacheGain] at hwork
    omega
  · intro hstalled t
    exact idle_of_stalled isAtomic_cacheSection isLive_cacheSection
      (hstart.trans hpath.leadsTo).reachable hstalled t

end Runs

/-- A write into an empty cache and the sweep after it cost as much as they
may. -/
theorem cache_calls_return_attained :
    ∃ (s s' : Threads (Fin 1))
      (l : List (Action (Fin 1) TimePoint (List Bytes) CacheCall)),
      (cacheMachine (Fin 1) Fetching.sampleConfig).Path
          (fun _ a => writesIn [[]] a = true) s l s' ∧
        l.countP Action.isOwn = 10 ∧
        l.countP Action.isOwn ≤ l.countP isCall * (1 + 9) ∧
        ((cacheMachine (Fin 1) Fetching.sampleConfig).Stalled
            (fun _ a => a.isOwn = true) s' →
          ∀ t, (s'.threads t).idle = true) := by
  let steps : List (Action (Fin 1) TimePoint (List Bytes) CacheCall) :=
    [.call 0 (.write [] CacheEntry.zero), .lock 0, .instr 0 [], .instr 0 [],
      .unlock 0, .lock 0, .instr 0 [], .instr 0 [[]], .instr 0 [], .instr 0 [],
      .unlock 0]
  let s : Threads (Fin 1) :=
    { env := Fetching.sampleStart.now
      data := UdsCache.new (some Fetching.sampleConfig.toCacheConfig)
      mutex := none
      threads := fun _ => .outside
      log := [] }
  have hruns : ((cacheMachine (Fin 1) Fetching.sampleConfig).runIf
      (fun _ a => writesIn [[]] a) s steps).isSome = true := by decide +kernel
  obtain ⟨s', hrun⟩ := Option.isSome_iff_exists.1 hruns
  have hpath : (cacheMachine (Fin 1) Fetching.sampleConfig).Path
      (fun _ a => writesIn [[]] a = true) s steps s' :=
    Machine.Path.nil.append_runIf (fun _ _ h => h) hrun
  have hinit : (cacheMachine (Fin 1) Fetching.sampleConfig).init s :=
    ⟨rfl, rfl, rfl, rfl⟩
  exact ⟨s, s', steps, hpath, rfl, cache_calls_return hinit hpath⟩

end BkkApi.Server.CacheProgress
