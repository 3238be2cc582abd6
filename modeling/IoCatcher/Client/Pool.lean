import IoCatcher.Lib.Run
import Mathlib.Data.List.Basic

/-!
# IO Catcher — the connection pool of the client

Every call of the client API takes a `LibfabricConnection` with
`ioc_client_get_connection`, runs its request on it and gives it back with
`ioc_client_ret_connection`. The connections are created on demand, never more
than `IOC_CLIENT_MAX_CONN`: a semaphore counts the free places, a mutex covers
the search through the connections and the creation of a new one, and the `used`
flag of a connection is cleared outside the mutex, before the semaphore is posted.

The steps are `sem_wait`, the section under the mutex, `setUsed(false)` and
`sem_post`, in any interleaving of any number of threads, together with the
`sem_wait`s of `ioc_client_fini`.

The proof rests on three counts: the places the semaphore has given out are the
threads between their `sem_wait` and their `sem_post` (`Inv.slots`), the flags
that are set are the threads that hold a connection (`Inv.counted`), and a thread
that searches holds a place but no connection.
-/

namespace IoCatcher.Client

-- ---------------------------------------------------------------------------
-- State
-- ---------------------------------------------------------------------------

/-- `IOC_CLIENT_MAX_CONN`. -/
def clientMaxConn : Nat := 8

/-- What the pool reads of a connection. The rest of it (its endpoint, the client
id and key sent with each message) plays no role here. -/
@[ext]
structure LibfabricConnection where
  used : Bool
  deriving DecidableEq

/-- Where a thread of the application is. -/
inductive Caller where
  /-- In none of the two functions, or blocked in `sem_wait`. -/
  | outside
  /-- In `ioc_client_get_connection`, after `sem_wait`. -/
  | waited
  /-- `ioc_client_get_connection` returned this element of `connections`. -/
  | holds (connection : Nat)
  /-- In `ioc_client_ret_connection`, after `setUsed(false)`. -/
  | returned
  deriving DecidableEq

/-- The thread has passed `sem_wait` and not yet called `sem_post`. -/
def Caller.inside : Caller → Bool
  | .outside => false
  | .waited | .holds _ | .returned => true

/-- The thread has a connection. -/
def Caller.holding : Caller → Bool
  | .holds _ => true
  | .outside | .waited | .returned => false

/-- The fields of `ioc_client_s` the threads share, and where each thread is. -/
structure Pool where
  connectionsSemaphore : Nat
  /-- In the order of their creation. No connection leaves the list before
  `ioc_client_fini` deletes the client. -/
  connections          : List LibfabricConnection
  threads              : List Caller
  /-- The `sem_wait`s that `ioc_client_fini` has passed. -/
  finiWaits            : Nat
  deriving DecidableEq

/-- What happens in one step. -/
inductive PoolEvent where
  /-- The application starts one more thread. -/
  | spawn
  /-- `sem_wait` of `ioc_client_get_connection` returns. -/
  | semWait (thread : Nat)
  /-- The section under `connections_mutex`. -/
  | searchOrCreate (thread : Nat)
  /-- `connection->setUsed(false)`. -/
  | setUsedFalse (thread : Nat)
  /-- `sem_post`. -/
  | semPost (thread : Nat)
  /-- A `sem_wait` of `ioc_client_fini` returns. -/
  | finiWait

/-- The event is not the next one of its thread. -/
inductive PoolFault where
  | blocked
  deriving DecidableEq

-- ---------------------------------------------------------------------------
-- Steps
-- ---------------------------------------------------------------------------

/-- The body of `ioc_client_get_connection` under the mutex: the first connection
that is not in use, or a new one at the end of the list. -/
def searchOrCreate (connections : List LibfabricConnection) : List LibfabricConnection × Nat :=
  match connections.findIdx? fun it => it.used = false with
  | some i => (connections.set i ⟨true⟩, i)
  | none => (connections ++ [⟨true⟩], connections.length)

namespace Pool

/-- One step of one thread. -/
def exec (p : Pool) : PoolEvent → Except PoolFault Pool
  | .spawn => .ok { p with threads := p.threads ++ [.outside] }
  | .semWait t =>
    if p.threads[t]? = some .outside ∧ 0 < p.connectionsSemaphore then
      .ok { p with
        connectionsSemaphore := p.connectionsSemaphore - 1
        threads := p.threads.set t .waited }
    else .error .blocked
  | .searchOrCreate t =>
    if p.threads[t]? = some .waited then
      .ok { p with
        connections := (Client.searchOrCreate p.connections).1
        threads := p.threads.set t (.holds (Client.searchOrCreate p.connections).2) }
    else .error .blocked
  | .setUsedFalse t =>
    match p.threads[t]? with
    | some (.holds c) =>
      .ok { p with
        connections := p.connections.set c ⟨false⟩
        threads := p.threads.set t .returned }
    | _ => .error .blocked
  | .semPost t =>
    if p.threads[t]? = some .returned then
      .ok { p with
        connectionsSemaphore := p.connectionsSemaphore + 1
        threads := p.threads.set t .outside }
    else .error .blocked
  | .finiWait =>
    -- the loop of `ioc_client_fini` ends at `IOC_CLIENT_MAX_CONN`
    if p.finiWaits < clientMaxConn ∧ 0 < p.connectionsSemaphore then
      .ok { p with
        connectionsSemaphore := p.connectionsSemaphore - 1
        finiWaits := p.finiWaits + 1 }
    else .error .blocked

/-- One step that returns. -/
def Step (p : Pool) (e : PoolEvent) (p' : Pool) : Prop := p.exec e = .ok p'

/-- The pool after `ioc_client_init`. -/
def new : Pool := ⟨clientMaxConn, [], [], 0⟩

/-- The pools that some interleaving of the threads reaches. -/
def Reachable (p : Pool) : Prop := Run Step (fun _ _ => True) new p

/-- What a step can do. -/
theorem step_cases {p p' : Pool} {e : PoolEvent} (h : Step p e p') :
    (e = .spawn ∧ p' = { p with threads := p.threads ++ [.outside] }) ∨
    (∃ t, e = .semWait t ∧ p.threads[t]? = some .outside ∧ 0 < p.connectionsSemaphore ∧
      p' = { p with
        connectionsSemaphore := p.connectionsSemaphore - 1
        threads := p.threads.set t .waited }) ∨
    (∃ t, e = .searchOrCreate t ∧ p.threads[t]? = some .waited ∧
      p' = { p with
        connections := (Client.searchOrCreate p.connections).1
        threads := p.threads.set t (.holds (Client.searchOrCreate p.connections).2) }) ∨
    (∃ t c, e = .setUsedFalse t ∧ p.threads[t]? = some (.holds c) ∧
      p' = { p with
        connections := p.connections.set c ⟨false⟩
        threads := p.threads.set t .returned }) ∨
    (∃ t, e = .semPost t ∧ p.threads[t]? = some .returned ∧
      p' = { p with
        connectionsSemaphore := p.connectionsSemaphore + 1
        threads := p.threads.set t .outside }) ∨
    (e = .finiWait ∧ 0 < p.connectionsSemaphore ∧
      p' = { p with
        connectionsSemaphore := p.connectionsSemaphore - 1
        finiWaits := p.finiWaits + 1 }) := by
  unfold Step at h
  cases e with
  | spawn => exact .inl ⟨rfl, (Except.ok.inj h).symm⟩
  | semWait t =>
    simp only [exec] at h
    split_ifs at h with hc
    exact .inr (.inl ⟨t, rfl, hc.1, hc.2, (Except.ok.inj h).symm⟩)
  | searchOrCreate t =>
    simp only [exec] at h
    split_ifs at h with hc
    exact .inr (.inr (.inl ⟨t, rfl, hc, (Except.ok.inj h).symm⟩))
  | setUsedFalse t =>
    simp only [exec] at h
    split at h
    · rename_i c hc
      exact .inr (.inr (.inr (.inl ⟨t, c, rfl, hc, (Except.ok.inj h).symm⟩)))
    · exact absurd h (by simp)
  | semPost t =>
    simp only [exec] at h
    split_ifs at h with hc
    exact .inr (.inr (.inr (.inr (.inl ⟨t, rfl, hc, (Except.ok.inj h).symm⟩))))
  | finiWait =>
    simp only [exec] at h
    split_ifs at h with hc
    exact .inr (.inr (.inr (.inr (.inr ⟨rfl, hc.2, (Except.ok.inj h).symm⟩))))

end Pool

/-- The search takes a connection that was not in use, or adds one when all are. -/
theorem searchOrCreate_cases (connections : List LibfabricConnection) :
    (∃ i, connections[i]? = some ⟨false⟩ ∧
      searchOrCreate connections = (connections.set i ⟨true⟩, i)) ∨
    ((∀ it ∈ connections, it.used = true) ∧
      searchOrCreate connections = (connections ++ [⟨true⟩], connections.length)) := by
  unfold searchOrCreate
  cases h : connections.findIdx? fun it => it.used = false with
  | none =>
    refine .inr ⟨?_, rfl⟩
    simpa using List.findIdx?_eq_none_iff.mp h
  | some i =>
    refine .inl ⟨i, ?_, rfl⟩
    obtain ⟨hlt, hused, -⟩ := List.findIdx?_eq_some_iff_getElem.mp h
    rw [List.getElem?_eq_getElem hlt]
    exact congrArg some (LibfabricConnection.ext_iff.mpr (by simpa using hused))

-- ---------------------------------------------------------------------------
-- Invariant
-- ---------------------------------------------------------------------------

namespace Pool

/-- What links the semaphore, the threads and the flags. -/
structure Inv (p : Pool) : Prop where
  slots     : p.connectionsSemaphore + p.threads.countP Caller.inside + p.finiWaits = clientMaxConn
  flagged   : ∀ t c : Nat, p.threads[t]? = some (.holds c) → p.connections[c]? = some ⟨true⟩
  held      : ∀ c : Nat, p.connections[c]? = some ⟨true⟩ →
    ∃ t : Nat, p.threads[t]? = some (.holds c)
  exclusive : ∀ t t' c : Nat, p.threads[t]? = some (.holds c) →
    p.threads[t']? = some (.holds c) → t = t'
  counted   : p.threads.countP Caller.holding = p.connections.countP LibfabricConnection.used
  bounded   : p.connections.length ≤ clientMaxConn

theorem inv_new : Inv new := by
  constructor <;> simp [new]

/-- A thread that holds no connection moves to a place where it holds none. -/
theorem holds_move {threads : List Caller} {t : Nat} {a b : Caller} (h : threads[t]? = some a)
    (ha : a.holding = false) (hb : b.holding = false) (i c : Nat) :
    (threads.set t b)[i]? = some (.holds c) ↔ threads[i]? = some (.holds c) := by
  rw [Thread.getElem?_move h]
  by_cases hi : i = t
  · subst hi
    rw [if_pos rfl, h]
    constructor
    · rintro ⟨⟩
      exact absurd hb (by simp [Caller.holding])
    · rintro ⟨⟩
      exact absurd ha (by simp [Caller.holding])
  · rw [if_neg hi]

/-- A step that moves no thread in or out of `holds` and touches no connection
keeps all but the count of the places. -/
theorem Inv.of_holds {p p' : Pool} (h : Inv p) (hConnections : p'.connections = p.connections)
    (hHolds : ∀ t c : Nat, p'.threads[t]? = some (.holds c) ↔ p.threads[t]? = some (.holds c))
    (hCount : p'.threads.countP Caller.holding = p.threads.countP Caller.holding)
    (hSlots : p'.connectionsSemaphore + p'.threads.countP Caller.inside + p'.finiWaits =
      clientMaxConn) : Inv p' where
  slots := hSlots
  flagged t c ht := by
    rw [hConnections]
    exact h.flagged t c ((hHolds t c).mp ht)
  held c hc := by
    rw [hConnections] at hc
    obtain ⟨t, ht⟩ := h.held c hc
    exact ⟨t, (hHolds t c).mpr ht⟩
  exclusive t t' c ht ht' := h.exclusive t t' c ((hHolds t c).mp ht) ((hHolds t' c).mp ht')
  counted := by rw [hCount, hConnections, h.counted]
  bounded := by rw [hConnections]; exact h.bounded

/-- The same for a thread that moves between two places without a connection. -/
theorem Inv.move {p : Pool} (h : Inv p) {t semaphore : Nat} {a b : Caller}
    (ht : p.threads[t]? = some a) (ha : a.holding = false) (hb : b.holding = false)
    (hSlots : semaphore + (p.threads.set t b).countP Caller.inside + p.finiWaits =
      clientMaxConn) :
    Inv { p with connectionsSemaphore := semaphore, threads := p.threads.set t b } := by
  refine h.of_holds rfl (fun i c => holds_move ht ha hb i c) ?_ hSlots
  have hcount := Thread.countP_move (b := b) ht Caller.holding
  simp only [ha, hb] at hcount
  simpa using hcount

/-- A thread that searches sees the connections of other threads only, so one
more fits. -/
theorem Inv.room {p : Pool} (h : Inv p) {t : Nat} (ht : p.threads[t]? = some .waited)
    (hUsed : ∀ it ∈ p.connections, it.used = true) : p.connections.length < clientMaxConn := by
  have hall : p.connections.countP LibfabricConnection.used = p.connections.length :=
    List.countP_eq_length.mpr hUsed
  -- every holder is inside, and the searching thread is inside without holding
  have hmove := Thread.countP_move (b := Caller.holds 0) ht Caller.holding
  have hmove' := Thread.countP_move (b := Caller.holds 0) ht Caller.inside
  have hle : (p.threads.set t (.holds 0)).countP Caller.holding ≤
      (p.threads.set t (.holds 0)).countP Caller.inside := by
    refine List.countP_mono_left fun a _ ha => ?_
    cases a <;> simp_all [Caller.holding, Caller.inside]
  have hslots := h.slots
  have hcounted := h.counted
  simp only [Caller.holding, Caller.inside] at hmove hmove'
  simp at hmove hmove'
  omega

/-- What the search keeps, whichever branch it takes: the thread becomes the only
holder of a connection nobody held. -/
theorem Inv.take {p : Pool} (h : Inv p) {t i : Nat} {connections : List LibfabricConnection}
    (ht : p.threads[t]? = some .waited)
    (hFree : p.connections[i]? ≠ some ⟨true⟩)
    (hGet : ∀ j : Nat, connections[j]? = if j = i then some ⟨true⟩ else p.connections[j]?)
    (hCount : connections.countP LibfabricConnection.used =
      p.connections.countP LibfabricConnection.used + 1)
    (hLength : connections.length ≤ clientMaxConn) :
    Inv { p with connections := connections, threads := p.threads.set t (.holds i) } := by
  have hthreads := Thread.getElem?_move (b := Caller.holds i) ht
  have hholding := Thread.countP_move (b := Caller.holds i) ht Caller.holding
  have hinside := Thread.countP_move (b := Caller.holds i) ht Caller.inside
  simp only [Caller.holding, Caller.inside] at hholding hinside
  -- nobody held the connection before
  have hnobody : ∀ s : Nat, p.threads[s]? ≠ some (.holds i) := fun s hs => hFree (h.flagged s i hs)
  constructor
  · have := h.slots
    simp at hinside ⊢
    omega
  · intro s c hs
    rw [hthreads] at hs
    rw [hGet]
    by_cases hst : s = t
    · rw [if_pos hst] at hs
      cases hs
      rw [if_pos rfl]
    · rw [if_neg hst] at hs
      rw [if_neg]
      · exact h.flagged s c hs
      · rintro rfl
        exact hnobody s hs
  · intro c hc
    rw [hGet] at hc
    by_cases hci : c = i
    · exact ⟨t, by rw [hthreads, if_pos rfl, hci]⟩
    · rw [if_neg hci] at hc
      obtain ⟨s, hs⟩ := h.held c hc
      refine ⟨s, ?_⟩
      rw [hthreads, if_neg]
      · exact hs
      · rintro rfl
        rw [ht] at hs
        cases hs
  · intro s s' c hs hs'
    rw [hthreads] at hs hs'
    by_cases hst : s = t <;> by_cases hst' : s' = t
    · rw [hst, hst']
    · rw [if_pos hst] at hs
      rw [if_neg hst'] at hs'
      cases hs
      exact absurd hs' (hnobody s')
    · rw [if_neg hst] at hs
      rw [if_pos hst'] at hs'
      cases hs'
      exact absurd hs (hnobody s)
    · rw [if_neg hst] at hs
      rw [if_neg hst'] at hs'
      exact h.exclusive s s' c hs hs'
  · have := h.counted
    simp at hholding ⊢
    omega
  · exact hLength

/-- The section under the mutex. -/
theorem Inv.search {p : Pool} (h : Inv p) {t : Nat} (ht : p.threads[t]? = some .waited) :
    Inv { p with
      connections := (Client.searchOrCreate p.connections).1
      threads := p.threads.set t (.holds (Client.searchOrCreate p.connections).2) } := by
  obtain ⟨i, hi, heq⟩ | ⟨hUsed, heq⟩ := searchOrCreate_cases p.connections
  · rw [heq]
    refine h.take ht (by simp [hi]) (fun j => Thread.getElem?_move hi j) ?_ ?_
    · simpa using Thread.countP_move (b := LibfabricConnection.mk true) hi LibfabricConnection.used
    · simpa using h.bounded
  · rw [heq]
    refine h.take ht (by simp) ?_ ?_ ?_
    · exact Thread.getElem?_spawn
    · simp [List.countP_append]
    · have := h.room ht hUsed
      simp only [List.length_append, List.length_singleton]
      omega

/-- `setUsed(false)` by the thread that holds the connection. -/
theorem Inv.release {p : Pool} (h : Inv p) {t c : Nat} (ht : p.threads[t]? = some (.holds c)) :
    Inv { p with
      connections := p.connections.set c ⟨false⟩
      threads := p.threads.set t .returned } := by
  have hc := h.flagged t c ht
  have hthreads := Thread.getElem?_move (b := Caller.returned) ht
  have hconnections := Thread.getElem?_move (b := LibfabricConnection.mk false) hc
  have hholding := Thread.countP_move (b := Caller.returned) ht Caller.holding
  have hinside := Thread.countP_move (b := Caller.returned) ht Caller.inside
  have hused := Thread.countP_move (b := LibfabricConnection.mk false) hc LibfabricConnection.used
  simp only [Caller.holding, Caller.inside] at hholding hinside
  -- who still holds a connection holds another one
  have hother : ∀ s d : Nat, (p.threads.set t .returned)[s]? = some (.holds d) →
      p.threads[s]? = some (.holds d) ∧ d ≠ c := by
    intro s d hs
    rw [hthreads] at hs
    by_cases hst : s = t
    · rw [if_pos hst] at hs
      cases hs
    · rw [if_neg hst] at hs
      refine ⟨hs, ?_⟩
      rintro rfl
      exact hst (h.exclusive s t _ hs ht)
  constructor
  · have := h.slots
    simp at hinside ⊢
    omega
  · intro s d hs
    obtain ⟨hd, hdc⟩ := hother s d hs
    rw [hconnections, if_neg hdc]
    exact h.flagged s d hd
  · intro d hd
    rw [hconnections] at hd
    split_ifs at hd with hdc
    · exact absurd hd (by simp)
    · obtain ⟨s, hs⟩ := h.held d hd
      refine ⟨s, ?_⟩
      rw [hthreads, if_neg]
      · exact hs
      · rintro rfl
        rw [ht] at hs
        cases hs
        exact hdc rfl
  · intro s s' d hs hs'
    exact h.exclusive s s' d (hother s d hs).1 (hother s' d hs').1
  · have := h.counted
    simp at hholding hused ⊢
    omega
  · simpa using h.bounded

/-- Every step keeps the invariant. -/
theorem Inv.step {p p' : Pool} {e : PoolEvent} (h : Inv p) (hstep : Step p e p') : Inv p' := by
  have hslots := h.slots
  obtain ⟨-, rfl⟩ | ⟨t, -, ht, hpos, rfl⟩ | ⟨t, -, ht, rfl⟩ | ⟨t, c, -, ht, rfl⟩ |
    ⟨t, -, ht, rfl⟩ | ⟨-, hpos, rfl⟩ := step_cases hstep
  · refine h.of_holds rfl ?_ ?_ ?_
    · intro t c
      rw [Thread.getElem?_spawn]
      by_cases hlt : t = p.threads.length
      · rw [if_pos hlt, hlt, List.getElem?_eq_none (Nat.le_refl _)]
        simp
      · rw [if_neg hlt]
    · simp [List.countP_append, Caller.holding]
    · simpa [List.countP_append, Caller.inside] using hslots
  · refine h.move ht rfl rfl ?_
    have := Thread.countP_move (b := Caller.waited) ht Caller.inside
    simp [Caller.inside] at this
    omega
  · exact h.search ht
  · exact h.release ht
  · refine h.move ht rfl rfl ?_
    have := Thread.countP_move (b := Caller.outside) ht Caller.inside
    simp [Caller.inside] at this
    omega
  · refine h.of_holds rfl (fun _ _ => Iff.rfl) rfl ?_
    dsimp only
    omega

/-- The invariant in every pool some interleaving reaches. -/
theorem inv_of_reachable {p : Pool} (h : Reachable p) : Inv p :=
  Run.invariant h inv_new fun hi _ hs => hi.step hs

-- ---------------------------------------------------------------------------
-- Results
-- ---------------------------------------------------------------------------

/-- A step adds a connection only in the search, and then every connection is in
use. -/
theorem used_of_created {p p' : Pool} {e : PoolEvent} (hstep : Step p e p')
    (hlt : p.connections.length < p'.connections.length) :
    ∀ it ∈ p.connections, it.used = true := by
  obtain ⟨-, rfl⟩ | ⟨t, -, ht, hpos, rfl⟩ | ⟨t, -, ht, rfl⟩ | ⟨t, c, -, ht, rfl⟩ |
    ⟨t, -, ht, rfl⟩ | ⟨-, hpos, rfl⟩ := step_cases hstep
  · exact absurd hlt (Nat.lt_irrefl _)
  · exact absurd hlt (Nat.lt_irrefl _)
  · obtain ⟨i, -, heq⟩ | ⟨hUsed, -⟩ := searchOrCreate_cases p.connections
    · simp [heq] at hlt
    · exact hUsed
  · simp at hlt
  · exact absurd hlt (Nat.lt_irrefl _)
  · exact absurd hlt (Nat.lt_irrefl _)

/-- No connection is held by two threads, the client never creates more than
`IOC_CLIENT_MAX_CONN`, and it creates one only when every other one is in use by
a thread that has not given it back. -/
theorem exclusive_and_bounded {p : Pool} (h : Reachable p) :
    (∀ t t' c : Nat, p.threads[t]? = some (.holds c) → p.threads[t']? = some (.holds c) →
      t = t') ∧
    p.connections.length ≤ clientMaxConn ∧
    ∀ e p', Step p e p' → p.connections.length < p'.connections.length →
      ∀ c < p.connections.length, p.connections[c]? = some ⟨true⟩ ∧
        ∃ t : Nat, p.threads[t]? = some (.holds c) := by
  have hinv := inv_of_reachable h
  refine ⟨hinv.exclusive, hinv.bounded, ?_⟩
  intro e p' hstep hlt c hc
  have hused := used_of_created hstep hlt _ (List.getElem_mem hc)
  have hflag : p.connections[c]? = some ⟨true⟩ := by
    rw [List.getElem?_eq_getElem hc]
    exact congrArg some (LibfabricConnection.ext_iff.mpr hused)
  exact ⟨hflag, hinv.held c hflag⟩

/-- Two threads of one client, each with a connection, while a third one waits. -/
def busy : Pool := ⟨5, [⟨true⟩, ⟨true⟩], [.holds 0, .holds 1, .waited], 0⟩

theorem reachable_busy : Reachable busy := by
  have htrace : Run.trace exec (fun _ _ => True)
      [.spawn, .spawn, .spawn, .semWait 0, .semWait 1, .searchOrCreate 0, .searchOrCreate 1,
        .semWait 2] new = some busy := by decide
  exact Run.of_trace .start htrace

/-- The third thread creates a third connection. -/
theorem busy_exclusive_and_bounded :
    busy.connections.length ≤ clientMaxConn ∧
    ∃ t : Nat, busy.threads[t]? = some (.holds 1) :=
  ⟨(exclusive_and_bounded reachable_busy).2.1,
    ((exclusive_and_bounded reachable_busy).2.2 (.searchOrCreate 2)
      ⟨5, [⟨true⟩, ⟨true⟩, ⟨true⟩], [.holds 0, .holds 1, .holds 2], 0⟩ (by unfold Step; decide)
      (by decide) 1 (by decide)).2⟩

/-- When `ioc_client_fini` has passed its `sem_wait`s, no thread is between its
own `sem_wait` and `sem_post`: the connections it deletes are held by nobody, and
no thread takes one any more. -/
theorem alone_of_finiWaits {p : Pool} (h : Reachable p) (hfini : p.finiWaits = clientMaxConn) :
    (∀ t c : Nat, p.threads[t]? ≠ some (.holds c)) ∧
    ∀ e p', Step p e p' → p'.connections = p.connections := by
  have hinv := inv_of_reachable h
  have hslots := hinv.slots
  have hnone : p.threads.countP Caller.inside = 0 := by omega
  have hinside : ∀ {t : Nat} {a : Caller}, p.threads[t]? = some a → a.inside = false := by
    intro t a ht
    exact Bool.eq_false_iff.mpr (List.countP_eq_zero.mp hnone a (List.mem_of_getElem? ht))
  refine ⟨fun t c ht => absurd (hinside ht) (by simp [Caller.inside]), ?_⟩
  intro e p' hstep
  obtain ⟨-, rfl⟩ | ⟨t, -, ht, hpos, rfl⟩ | ⟨t, -, ht, rfl⟩ | ⟨t, c, -, ht, rfl⟩ |
    ⟨t, -, ht, rfl⟩ | ⟨-, hpos, rfl⟩ := step_cases hstep
  · rfl
  · rfl
  · exact absurd (hinside ht) (by simp [Caller.inside])
  · exact absurd (hinside ht) (by simp [Caller.inside])
  · rfl
  · rfl

end Pool

end IoCatcher.Client
