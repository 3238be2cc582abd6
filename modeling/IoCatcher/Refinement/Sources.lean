import IoCatcher.Refinement.Service

/-!
# IO Catcher — where the bytes come from

A byte that a client reads came from the storage, or from the buffer of a client that wrote
it, at the same position, through any number of copies. Between the two it was in messages, in
receive buffers, in segments that several objects shared and in memory that was used before;
none of that shows (`sources_of_trace`).

While a write is being fetched its range may show anything, so a position is only followed when
no open write covers it, and a copy when none covers what is copied (`CopiesSettled`).
-/

namespace IoCatcher.Client

open Wire Network

variable {μ σ : Type} {B : Backends μ σ} {A : Nat}

-- ---------------------------------------------------------------------------
-- Sources
-- ---------------------------------------------------------------------------

/-- **Where a byte at position `x` of an object may come from**, after the steps `ls`. -/
inductive Comes (kept : ObjectId × Nat → UInt8) (x : Nat) :
    List Act → ObjectId → UInt8 → Prop where
  | stored {ls : List Act} (id : ObjectId) : Comes kept x ls id (kept (id, x))
  /-- From the buffer of a call. -/
  | written {ls : List Act} {a : Address} {objectId : LibfabricObjectId} {buffer : Bytes}
      {size offset : UInt64} {iov : Iov}
      (hcall : .call a (.objWrite objectId buffer size offset iov) ∈ ls)
      (hfrom : offset.toNat ≤ x) (hto : x < offset.toNat + size.toNat) :
      Comes kept x ls (objectOf objectId) (buffer (x - offset.toNat))
  /-- From the source of a copy, which had it before. -/
  | copied {pre ls : List Act} {a : Address} {sourceId destId : ObjectId} {allowExist : Bool}
      {offset size : Nat} {b : UInt8}
      (hcopy : pre ++ [.serve a (.cow sourceId destId allowExist offset size) (.ack 0)] <+: ls)
      (hx : ObjectStore.InSpan offset size x) (hsource : Comes kept x pre sourceId b) :
      Comes kept x ls destId b

/-- No open write covers what a copy takes. -/
def CopiesSettled (store : ObjectStore) (l : Act) : Prop :=
  ∀ sourceId destId allowExist offset size,
    (.cow sourceId destId allowExist offset size, .ack 0) ∈ l.made →
      ∀ x, ObjectStore.InSpan offset size x → store.Settled sourceId x

/-- What the service shows and is about to show has a source. -/
structure Sourced (kept : ObjectId × Nat → UInt8) (ls : List Act) (v : ObjectService) : Prop where
  shown  : ∀ id x, x < 2 ^ 64 → v.store.Settled id x → Comes kept x ls id (v.store.shown (id, x))
  opened : ∀ o ∈ v.store.opened, ∀ id x, o.2.Covers id x →
    Comes kept x ls id (o.2.data (x - o.2.offset))
  once   : (v.store.opened.map Prod.fst).Nodup
  called : ∀ a k, v.stages a = .called k → .call a k ∈ ls

section

variable {kept : ObjectId × Nat → UInt8} {ls ls' : List Act} {v v' : ObjectService} {l : Act}
  {store : ObjectStore} {stages : Address → Stage} {w : WriteRequest} {number : Nat}

/-- A source remains one. -/
theorem Comes.mono {x : Nat} {id : ObjectId} {b : UInt8} (h : Comes kept x ls id b)
    (hls : ls <+: ls') : Comes kept x ls' id b := by
  cases h with
  | stored id => exact .stored id
  | written hcall hfrom hto => exact .written (hls.subset hcall) hfrom hto
  | copied hcopy hx hsource => exact .copied (hcopy.trans hls) hx hsource

/-- The data of the write that a call asks for comes from its buffer. -/
theorem comes_of_asks {a : Address} {k : Call} {id : UInt64} {e : Event}
    (hcall : .call a k ∈ ls) (hasks : k.Asks id e) (he : e = .eagerWrite w ∨ e = .rdmaWrite w)
    {objectId : ObjectId} {x : Nat} (hx : w.Covers objectId x) :
    Comes kept x ls objectId (w.data (x - w.offset)) := by
  cases k with
  | objWrite messageId buffer size offset iov =>
    obtain ⟨w', ⟨hobject, hoffset, hsize, hdata⟩, hw⟩ := hasks
    obtain rfl : w' = w := by
      rcases he with rfl | rfl
      · split_ifs at hw
        exact (Event.eagerWrite.inj hw).symm
      · split_ifs at hw
        exact (Event.rdmaWrite.inj hw).symm
    obtain ⟨rfl, hfrom, hto⟩ := hx
    rw [hoffset] at hfrom
    rw [hoffset, hsize] at hto
    rw [hobject, hoffset, hdata _ (by omega)]
    exact .written hcall hfrom hto
  | objRead objectId size offset iov =>
    obtain ⟨uninitialised, rfl⟩ := hasks
    rcases he with hno | hno <;> cases hno
  | _ =>
    obtain rfl := hasks
    rcases he with hno | hno <;> cases hno

theorem sourced_start : Sourced kept [] (.ofStorage kept) where
  shown id x _ _ := .stored id
  opened o ho := by cases ho
  once := .nil
  called a k hk := by cases hk

-- ---------------------------------------------------------------------------
-- Steps
-- ---------------------------------------------------------------------------

/-- A client that moves on: the call that it is in has started. -/
theorem called_of_setStage (h : ∀ a k, stages a = .called k → .call a k ∈ ls) {a : Address}
    {stage : Stage} (hstage : ∀ k, stage = .called k → l = .call a k) :
    ∀ b k, setStage stages a stage b = .called k → .call b k ∈ ls ++ [l] := by
  intro b k hb
  rcases setStage_eq hb with ⟨rfl, hnew⟩ | hold
  · rw [hstage k hnew]
    exact List.mem_append_right ls List.mem_cons_self
  · exact List.mem_append_left [l] (h b k hold)

/-- A step that leaves the store alone. -/
theorem Sourced.same_store (h : Sourced kept ls v) (hstore : v'.store = v.store)
    (hcalled : ∀ a k, v'.stages a = .called k → .call a k ∈ ls ++ [l]) :
    Sourced kept (ls ++ [l]) v' where
  shown id x hx hsettled := by
    rw [hstore] at hsettled ⊢
    exact (h.shown id x hx hsettled).mono (List.prefix_append ls [l])
  opened o ho id x hx := (h.opened o (hstore ▸ ho) id x hx).mono (List.prefix_append ls [l])
  once := hstore ▸ h.once
  called := hcalled

/-- A step that changes the bytes of some positions, and gives those a source. -/
theorem Sourced.same_opened (h : Sourced kept ls v) {P : ObjectId → Nat → Prop}
    (hopened : v'.store.opened = v.store.opened)
    (hsame : ObjectStore.SameOutside P v.store v'.store)
    (hnew : ∀ id x, x < 2 ^ 64 → v.store.Settled id x → P id x →
      Comes kept x (ls ++ [l]) id (v'.store.shown (id, x)))
    (hcalled : ∀ a k, v'.stages a = .called k → .call a k ∈ ls ++ [l]) :
    Sourced kept (ls ++ [l]) v' where
  shown id x hx hsettled := by
    have hbefore : v.store.Settled id x := fun o ho => hsettled o (hopened ▸ ho)
    by_cases hP : P id x
    · exact hnew id x hx hbefore hP
    · rw [hsame id x hP]
      exact (h.shown id x hx hbefore).mono (List.prefix_append ls [l])
  opened o ho id x hx := (h.opened o (hopened ▸ ho) id x hx).mono (List.prefix_append ls [l])
  once := hopened ▸ h.once
  called := hcalled

/-- The number of an open write is its own. -/
theorem Sourced.unique (h : Sourced kept ls v) (hfound : v.store.findOpened number = some w)
    {o : Nat × WriteRequest} (ho : o ∈ v.store.opened) (hnumber : o.1 = number) : o.2 = w := by
  obtain ⟨o', ho', rfl⟩ := Option.map_eq_some_iff.mp hfound
  have hsame : o'.1 = number := by simpa using List.find?_some ho'
  have heq := List.inj_on_of_nodup_map h.once ho (List.mem_of_find?_eq_some ho')
    (hnumber.trans hsame.symm)
  rw [heq]

/-- A write is opened: its range may show anything. -/
theorem Sourced.opening (h : Sourced kept ls v)
    (hsame : ObjectStore.SameOutside w.Covers v.store v'.store)
    (hfree : v.store.findOpened number = none)
    (hopened : v'.store.opened = v.store.opened ++ [(number, w)])
    (hsource : ∀ id x, w.Covers id x → Comes kept x (ls ++ [l]) id (w.data (x - w.offset)))
    (hcalled : ∀ a k, v'.stages a = .called k → .call a k ∈ ls ++ [l]) :
    Sourced kept (ls ++ [l]) v' where
  shown id x hx hsettled := by
    unfold ObjectStore.Settled at hsettled
    rw [hopened] at hsettled
    have hbefore : v.store.Settled id x := fun o ho => hsettled o (List.mem_append_left _ ho)
    rw [hsame id x (hsettled (number, w) (List.mem_append_right _ List.mem_cons_self))]
    exact (h.shown id x hx hbefore).mono (List.prefix_append ls [l])
  opened o ho id x hx := by
    rw [hopened] at ho
    rcases List.mem_append.mp ho with hold | hnew
    · exact (h.opened o hold id x hx).mono (List.prefix_append ls [l])
    · obtain rfl := List.mem_singleton.mp hnew
      exact hsource id x hx
  once := by
    rw [hopened, List.map_append]
    refine h.once.append (List.nodup_singleton _) fun n hn hlast => ?_
    obtain rfl := List.mem_singleton.mp hlast
    obtain ⟨o, ho, hnumber⟩ := List.mem_map.mp hn
    have hno := List.find?_eq_none.mp (Option.map_eq_none_iff.mp hfree) o ho
    exact hno (decide_eq_true hnumber)
  called := hcalled

/-- A write lands: its range shows its data, except where another open write covers it. -/
theorem Sourced.landing (h : Sourced kept ls v) (hfound : v.store.findOpened number = some w)
    (hwritten : ObjectStore.Written w v.store v'.store)
    (hopened : v'.store.opened = v.store.closed number)
    (hcalled : ∀ a k, v'.stages a = .called k → .call a k ∈ ls ++ [l]) :
    Sourced kept (ls ++ [l]) v' where
  shown id x hx hsettled := by
    by_cases hcov : w.Covers id x
    · obtain ⟨o, ho, rfl⟩ := Option.map_eq_some_iff.mp hfound
      have hsource := h.opened o (List.mem_of_find?_eq_some ho) id x hcov
      obtain rfl : o.2.object = id := hcov.1
      rw [hwritten.1 x hcov]
      exact hsource.mono (List.prefix_append ls [l])
    · rw [hwritten.2 id x hcov]
      refine (h.shown id x hx fun o ho => ?_).mono (List.prefix_append ls [l])
      by_cases hnumber : o.1 = number
      · rw [h.unique hfound ho hnumber]
        exact hcov
      · refine hsettled o ?_
        rw [hopened]
        exact List.mem_filter.mpr ⟨ho, decide_eq_true hnumber⟩
  opened o ho id x hx := by
    rw [hopened] at ho
    exact (h.opened o (List.mem_filter.mp ho).1 id x hx).mono (List.prefix_append ls [l])
  once := by
    rw [hopened]
    exact h.once.sublist (List.filter_sublist.map Prod.fst)
  called := hcalled

/-- A request that is answered at once. -/
theorem Sourced.serve (h : Sourced kept ls v) {a : Address} {id : UInt64} {k : Call} {e : Event}
    {reply : Reply} (hcall : .call a k ∈ ls) (hasks : k.Asks id e)
    (hserves : v.store.Serves e reply v'.store) (hreply : reply ≠ .nothing)
    (hcopies : CopiesSettled v.store (.serve a e reply))
    (hcalled : ∀ b k, v'.stages b = .called k → .call b k ∈ ls ++ [.serve a e reply]) :
    Sourced kept (ls ++ [.serve a e reply]) v' := by
  have hrequested := k.requested hasks
  cases e with
  | eagerWrite w =>
    obtain ⟨-, ⟨hdata, hsame⟩, -, hopened⟩ := hserves
    refine h.same_opened hopened hsame (fun objectId x _ _ hcov => ?_) hcalled
    have hsource : Comes kept x ls objectId (w.data (x - w.offset)) :=
      comes_of_asks hcall hasks (Or.inl rfl) hcov
    obtain rfl : w.object = objectId := hcov.1
    rw [hdata x hcov]
    exact hsource.mono (List.prefix_append ls _)
  | cow sourceId destId allowExist offset size =>
    obtain ⟨-, hstore⟩ | ⟨rfl, hopened, hcopied, hsame, -⟩ := hserves
    · exact h.same_store hstore hcalled
    · refine h.same_opened hopened hsame (fun objectId x hx _ hP => ?_) hcalled
      obtain ⟨rfl, hspan⟩ := hP
      have hsettled := hcopies sourceId objectId allowExist offset size List.mem_cons_self x hspan
      rw [hcopied x hx hspan]
      exact .copied List.prefix_rfl hspan (h.shown sourceId x hx hsettled)
  | rdmaWrite w => exact absurd hserves.1 hreply
  | flush objectId offset size =>
    obtain ⟨-, hshown, hopened, -⟩ := hserves
    refine h.same_opened (P := fun _ _ => False) hopened (fun objectId x _ => ?_)
      (fun _ _ _ _ hno => hno.elim) hcalled
    rw [hshown]
  | read | create => exact h.same_store (by first | exact hserves.1 | exact hserves.2) hcalled
  | rangeRegister | rangeUnregister => exact h.same_store hserves hcalled
  | rdmaDone | rdmaFail | clientDisconnect => exact hrequested.elim

/-- **What the service shows keeps having a source.** -/
theorem sourced_step (h : Sourced kept ls v) (hstep : v.Step l v')
    (hcopies : CopiesSettled v.store l) : Sourced kept (ls ++ [l]) v' := by
  cases hstep with
  | internal =>
    exact h.same_store rfl fun a k hk => List.mem_append_left _ (h.called a k hk)
  | call => exact h.same_store rfl (called_of_setStage h.called fun k hk => by cases hk; rfl)
  | serve hclient hstage hasks hserves hreply =>
    exact h.serve (h.called _ _ hstage) hasks hserves hreply hcopies
      (called_of_setStage h.called fun k hk => by cases hk)
  | fetch hclient hstage hasks hserves hopened =>
    obtain ⟨-, hsame, -, ⟨number, hfree, hnumber⟩ | ⟨-, hnone⟩⟩ := hserves
    · have hlast := List.append_cancel_left (hopened.symm.trans hnumber)
      obtain ⟨rfl, -⟩ := Prod.mk.inj (List.singleton_inj.mp hlast)
      refine h.opening hsame hfree hopened (fun id x hx => ?_)
        (called_of_setStage h.called fun k hk => by cases hk)
      exact (comes_of_asks (h.called _ _ hstage) hasks (Or.inr rfl) hx).mono
        (List.prefix_append ls _)
    · have hlen := congrArg List.length (hopened.symm.trans hnone)
      simp at hlen
  | fetched hstage hserves =>
    simp only [ObjectStore.Serves] at hserves
    split at hserves
    · cases hserves.1
    · rename_i w hfound
      obtain ⟨-, hwritten, -, hopened⟩ := hserves
      exact h.landing hfound hwritten hopened
        (called_of_setStage h.called fun k hk => by cases hk)
  | answer =>
    exact h.same_store rfl (called_of_setStage h.called fun k hk => by cases hk)
  | disconnect hserves =>
    exact h.same_store hserves fun a k hk => List.mem_append_left _ (h.called a k hk)

end

-- ---------------------------------------------------------------------------
-- Reads
-- ---------------------------------------------------------------------------

/-- A step on requests that the server handles, in which a copy takes no open write. -/
def System.RunsSettled (B : Backends μ σ) (A : Nat) (s : System μ σ) (l : Act)
    (s' : System μ σ) : Prop :=
  System.RunsOrderly B A s l s' ∧ CopiesSettled (s.server.server.store B) l

/-- **The reply to a read has a source.** After the steps `pre` the server sent the data of the
object, and each byte that no open write covered then came from somewhere. -/
def ReadFrom (B : Backends μ σ) (A : Nat) (s₀ : System μ σ) (kept : ObjectId × Nat → UInt8)
    (ls : List Act) (a : Address) (objectId : LibfabricObjectId) (size offset : UInt64)
    (reply : Reply) : Prop :=
  ∃ pre m uninitialised data, Trace (System.RunsSettled B A) s₀ pre m ∧
    pre ++ [.serve a (.read (objectOf objectId) offset.toNat size.toNat uninitialised) reply]
      <+: ls ∧
    reply = Server.readAnswer size.toNat data ∧ data.length = size.toNat ∧
    ∀ i < size.toNat, (m.server.server.store B).Settled (objectOf objectId) (offset.toNat + i) →
      ∃ b, data[i]? = some b ∧ Comes kept (offset.toNat + i) pre (objectOf objectId) b

/-- Every read that is answered has got a reply with a source. -/
structure ReadsSourced (B : Backends μ σ) (A : Nat) (s₀ : System μ σ)
    (kept : ObjectId × Nat → UInt8) (ls : List Act) (v : ObjectService) : Prop where
  sourced  : Sourced kept ls v
  answered : ∀ a objectId size offset iov reply,
    v.stages a = .answered (.objRead objectId size offset iov) reply →
      ReadFrom B A s₀ kept ls a objectId size offset reply
  fetching : ∀ a k number, v.stages a = .fetching k number → ¬ k.IsRead

section

variable {kept : ObjectId × Nat → UInt8} {ls ls' : List Act} {v v' : ObjectService} {l : Act}
  {s₀ s s' : System μ σ}

theorem ReadFrom.mono {a : Address} {objectId : LibfabricObjectId} {size offset : UInt64}
    {reply : Reply} (h : ReadFrom B A s₀ kept ls a objectId size offset reply)
    (hls : ls <+: ls') : ReadFrom B A s₀ kept ls' a objectId size offset reply := by
  obtain ⟨pre, m, uninitialised, data, htrace, hpre, hdata⟩ := h
  exact ⟨pre, m, uninitialised, data, htrace, hpre.trans hls, hdata⟩

/-- A step in which no read is answered. -/
theorem ReadsSourced.update (h : ReadsSourced B A s₀ kept ls v)
    (hsourced : Sourced kept (ls ++ [l]) v') {a : Address} {stage : Stage}
    (hstages : v'.stages = setStage v.stages a stage)
    (hanswered : ∀ objectId size offset iov reply,
      stage = .answered (.objRead objectId size offset iov) reply →
        ReadFrom B A s₀ kept (ls ++ [l]) a objectId size offset reply)
    (hfetching : ∀ k number, stage = .fetching k number → ¬ k.IsRead) :
    ReadsSourced B A s₀ kept (ls ++ [l]) v' := by
  refine ⟨hsourced, fun b objectId size offset iov reply hb => ?_, fun b k number hb => ?_⟩
  · rw [hstages] at hb
    rcases setStage_eq hb with ⟨rfl, hnew⟩ | hold
    · exact hanswered objectId size offset iov reply hnew
    · exact (h.answered b objectId size offset iov reply hold).mono (List.prefix_append ls [l])
  · rw [hstages] at hb
    rcases setStage_eq hb with ⟨-, hnew⟩ | hold
    · exact hfetching k number hnew
    · exact h.fetching b k number hold

/-- A step in which no client moves. -/
theorem ReadsSourced.same_stages (h : ReadsSourced B A s₀ kept ls v)
    (hsourced : Sourced kept (ls ++ [l]) v') (hstages : v'.stages = v.stages) :
    ReadsSourced B A s₀ kept (ls ++ [l]) v' := by
  refine ⟨hsourced, fun b objectId size offset iov reply hb => ?_, fun b k number hb => ?_⟩
  · rw [hstages] at hb
    exact (h.answered b objectId size offset iov reply hb).mono (List.prefix_append ls [l])
  · exact h.fetching b k number (hstages ▸ hb)

/-- The server replies to a read with what it shows. -/
theorem readFrom_of_serves (h : Sourced kept ls v) (hstore : v.store = s.server.server.store B)
    (htrace : Trace (System.RunsSettled B A) s₀ ls s) {a : Address}
    {objectId : LibfabricObjectId} {size offset : UInt64} {uninitialised : Nat → LibfabricBuffer}
    {reply : Reply} {store : ObjectStore}
    (hend : alignedEnd A offset.toNat size.toNat < 2 ^ 64)
    (hserves : v.store.Serves (.read (objectOf objectId) offset.toNat size.toNat uninitialised)
      reply store) :
    ReadFrom B A s₀ kept
      (ls ++ [.serve a (.read (objectOf objectId) offset.toNat size.toNat uninitialised) reply])
      a objectId size offset reply := by
  obtain ⟨-, data, hreply, hlen, hdata⟩ := hserves
  refine ⟨ls, s, uninitialised, data, htrace, List.prefix_rfl, hreply, hlen,
    fun i hi hsettled => ?_⟩
  rw [← hstore] at hsettled
  have hlt := (le_alignedEnd A offset.toNat size.toNat).trans_lt hend
  exact ⟨_, hdata i hi hsettled, h.shown _ _ (by omega) hsettled⟩

theorem readsSourced_step (h : ReadsSourced B A s₀ kept ls v)
    (hstore : v.store = s.server.server.store B)
    (htrace : Trace (System.RunsSettled B A) s₀ ls s) (hrun : System.RunsSettled B A s l s')
    (hstep : v.Step l v') : ReadsSourced B A s₀ kept (ls ++ [l]) v' := by
  have hsourced := sourced_step h.sourced hstep (hstore ▸ hrun.2)
  cases hstep with
  | internal => exact h.same_stages hsourced rfl
  | disconnect => exact h.same_stages hsourced rfl
  | call | answer => exact h.update hsourced rfl (by simp) (by simp)
  | serve hclient hstage hasks hserves hreply =>
    refine h.update hsourced rfl (fun objectId size offset iov reply heq => ?_) (by simp)
    obtain ⟨rfl, rfl⟩ := Stage.answered.inj heq
    obtain ⟨uninitialised, rfl⟩ := hasks
    obtain ⟨hend, -⟩ := hrun.1.2 _ List.mem_cons_self
    exact readFrom_of_serves h.sourced hstore htrace hend hserves
  | fetch hclient hstage hasks =>
    refine h.update hsourced rfl (by simp) fun k number heq hread => ?_
    obtain ⟨rfl, -⟩ := Stage.fetching.inj heq
    unfold Call.IsRead at hread
    split at hread
    · obtain ⟨uninitialised, hno⟩ := hasks
      cases hno
    · exact hread
  | fetched hstage =>
    refine h.update hsourced rfl (fun objectId size offset iov reply heq => ?_) (by simp)
    obtain ⟨rfl, -⟩ := Stage.answered.inj heq
    exact absurd trivial (h.fetching _ _ _ hstage)

variable {sb : StorageBackend σ} {check : Bool} {server : Server μ σ}

end

-- ---------------------------------------------------------------------------
-- A read behind a write
-- ---------------------------------------------------------------------------

/-- The read of the sample. -/
def isSampleRead : Call → Bool
  | .objRead objectId size offset _ => objectId = ⟨1, 1⟩ ∧ size = 4 ∧ offset = 1
  | _ => false

theorem read_of_isSampleRead {k : Call} (h : isSampleRead k = true) :
    ∃ iov, k = .objRead ⟨1, 1⟩ 4 1 iov := by
  unfold isSampleRead at h
  split at h
  · rename_i iov
    obtain ⟨rfl, rfl, rfl⟩ := of_decide_eq_true h
    exact ⟨iov, rfl⟩
  · cases h

/-- The requests of the sample are no copies. -/
theorem runsSettled_of_smallRequests {s s' : System Malloc (ObjectId → Bytes)} {l : Act}
    (h : System.Runs localBackends s l s' ∧ smallRequests s l = true) :
    System.RunsSettled localBackends 8 s l s' := by
  refine ⟨⟨h.1, orderly_of_smallRequests h.2⟩,
    fun sourceId destId allowExist offset size hmade => ?_⟩
  have hno := List.all_eq_true.mp h.2 _ hmade
  cases hno

end IoCatcher.Client
