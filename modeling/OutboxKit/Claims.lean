import OutboxKit.Custody
import OutboxKit.Overlap
import OutboxKit.Lib.Shares

/-! `FOR UPDATE SKIP LOCKED`. While claim transactions are open they hold disjoint rows,
each pending and just as its claim read it, for no mark reaches a locked row; and
claims opened one after the other share out the due rows in order, so that together
they are the batch one instance would have claimed alone. -/
namespace OutboxKit.Postgres
open Std Machine Ordered Trace Shares

variable {ι : Type} {U : UuidCrate} {config : ι → DispatcherConfig}

def claimed (inst : Instance (List (String × EventRow))) : List (String × EventRow) :=
  match inst.phase with
  | .fetching rows => rows
  | .down | .select | .draining | .gauge | .stopping | .stopped => []

def claimedKeys (inst : Instance (List (String × EventRow))) : List String :=
  (claimed inst).map (·.1)

theorem claimed_of_phase {inst : Instance (List (String × EventRow))}
    {rows : List (String × EventRow)} (h : inst.phase = .fetching rows) : claimed inst = rows := by
  rw [claimed, h]

theorem claimed_eq_nil {inst : Instance (List (String × EventRow))}
    (h : ∀ rows, inst.phase ≠ .fetching rows) : claimed inst = [] := by
  unfold claimed
  split
  · rename_i rows hp
    exact absurd hp (h rows)
  all_goals rfl

theorem issue_row_other (clock : UInt64) {k : EventId} (mark : Mark) (db : Db) {key : String}
    (h : key ≠ k.text) : ((shared U).issue clock k mark db).tables.outboxEvents[key]? =
      db.tables.outboxEvents[key]? := by
  cases mark with
  | dispatched => exact (dispatches clock k db.tables).row_other h
  | failed error retryAt => exact (fails k error retryAt db.tables).row_other h

theorem issue_locked (clock : UInt64) (k : EventId) (mark : Mark) (db : Db) :
    ((shared U).issue clock k mark db).locked = db.locked := by
  cases mark <;> rfl

theorem claimed_moves {c : DispatcherConfig} {inst inst' : Instance (List (String × EventRow))}
    {m : Move} {obs : List Obs} (h : Instance.Moves c inst m inst' obs) :
    claimed inst' = claimed inst := by
  cases h with
  | start hp | leave hp hs | stop hp hf | drained hp hf | gauge hp =>
    rw [claimed_eq_nil (by simp [Instance.started]), claimed_eq_nil (by simp [hp])]
  | _ => rfl

/-- Open claims: each holds distinct rows, which are pending and as it read them; no two
hold the same; and the locks are theirs. -/
structure Claimed (w : Fleet ι) : Prop where
  nodup : ∀ i, (claimedKeys (w.instances i)).Nodup
  current : ∀ i, ∀ kr ∈ claimed (w.instances i),
    (events w)[kr.1]? = some kr.2 ∧ kr.2.status = .pending
  disjoint : ∀ i j, i ≠ j → (claimedKeys (w.instances i)).Disjoint (claimedKeys (w.instances j))
  locked : ∀ key, key ∈ w.store.locked ↔ ∃ i, key ∈ claimedKeys (w.instances i)

theorem claimed_start (t : Tables) :
    Claimed (World.start ι (List (String × EventRow)) (⟨t, []⟩ : Db)) where
  nodup i := List.nodup_nil
  current i kr h := by cases h
  disjoint i j h key hi := by cases hi
  locked key := by simp [World.start, claimedKeys, claimed, Instance.off]

theorem nodup_due_keys (now : UInt64) (t : Tables) :
    ((selectOrdered (·.nextAttemptAt) (isDue now) t.outboxEvents).map (·.1)).Nodup :=
  nodup_selected_keys _ _ _

theorem nodup_claim (locked : String → Bool) (limit now : UInt64) (t : Tables) :
    ((claim locked limit now t).map (·.1)).Nodup :=
  (nodup_due_keys now t).sublist (((List.take_sublist _ _).trans List.filter_sublist).map _)

namespace Claimed
variable {w w' : Fleet ι}

theorem same (h : Claimed w) (hclaims : ∀ i, claimed (w'.instances i) = claimed (w.instances i))
    (hlocked : w'.store.locked = w.store.locked)
    (hrows : ∀ key ∈ w.store.locked, (events w')[key]? = (events w)[key]?) : Claimed w' := by
  have hkeys : ∀ i, claimedKeys (w'.instances i) = claimedKeys (w.instances i) := fun i =>
    congrArg (List.map _) (hclaims i)
  refine ⟨fun i => ?_, fun i kr hkr => ?_, fun i j hij => ?_, fun key => ?_⟩
  · rw [hkeys]
    exact h.nodup i
  · rw [hclaims] at hkr
    rw [hrows kr.1 ((h.locked _).mpr ⟨i, List.mem_map_of_mem hkr⟩)]
    exact h.current i kr hkr
  · rw [hkeys, hkeys]
    exact h.disjoint i j hij
  · rw [hlocked, h.locked]
    simp [hkeys]

variable [DecidableEq ι]

theorem still (h : Claimed w) {i : ι} {inst : Instance (List (String × EventRow))} {obs : List Obs}
    (hclaim : claimed inst = claimed (w.instances i)) : Claimed (w.put i inst w.store obs) := by
  refine h.same (fun j => ?_) rfl fun _ _ => rfl
  by_cases hj : j = i
  · subst hj
    rw [World.put_self, hclaim]
  · rw [World.put_of_ne hj]

theorem release (h : Claimed w) {i : ι} {inst : Instance (List (String × EventRow))}
    {obs : List Obs} (hnone : claimed inst = []) :
    Claimed (w.put i inst (w.store.unlock (claimed (w.instances i))) obs) := by
  have hkeys : ∀ {j : ι} {key : String},
      key ∈
        claimedKeys ((w.put i inst (w.store.unlock (claimed (w.instances i))) obs).instances j) →
      j ≠ i ∧ key ∈ claimedKeys (w.instances j) := by
    intro j key hkey
    by_cases hj : j = i
    · subst hj
      rw [World.put_self, claimedKeys, hnone] at hkey
      cases hkey
    · rw [World.put_of_ne hj] at hkey
      exact ⟨hj, hkey⟩
  refine ⟨fun j => ?_, fun j kr hkr => ?_, fun j k hjk key hj hk => ?_, fun key => ?_⟩
  · by_cases hj : j = i
    · subst hj
      rw [World.put_self, claimedKeys, hnone]
      exact List.nodup_nil
    · rw [World.put_of_ne hj]
      exact h.nodup j
  · by_cases hj : j = i
    · subst hj
      rw [World.put_self, hnone] at hkr
      cases hkr
    · rw [World.put_of_ne hj] at hkr
      exact h.current j kr hkr
  · exact h.disjoint j k hjk (hkeys hj).2 (hkeys hk).2
  · change key ∈ (w.store.locked.filter _) ↔ _
    rw [List.mem_filter, h.locked]
    constructor
    · rintro ⟨⟨j, hj⟩, hfree⟩
      have hji : j ≠ i := by
        rintro rfl
        simp only [Bool.not_eq_true', List.contains_eq_mem, decide_eq_false_iff_not] at hfree
        exact hfree hj
      exact ⟨j, by rwa [World.put_of_ne hji]⟩
    · rintro ⟨j, hj⟩
      obtain ⟨hji, hkey⟩ := hkeys hj
      refine ⟨⟨j, hkey⟩, ?_⟩
      simp only [Bool.not_eq_true', List.contains_eq_mem, decide_eq_false_iff_not]
      exact fun hi => h.disjoint j i hji hkey hi

/-- A claim opens on rows that nobody has locked. -/
theorem opened (h : Claimed w) {i : ι} (hnone : claimed (w.instances i) = []) {limit now : UInt64}
    {inst : Instance (List (String × EventRow))} {obs : List Obs}
    (hclaim : claimed inst = ((shared U).openFetch limit now w.store).1) :
    Claimed (w.put i inst ((shared U).openFetch limit now w.store).2 obs) := by
  change claimed inst = claim (fun key => w.store.locked.contains key) limit now
    w.store.tables at hclaim
  have hfree : ∀ key ∈ claimedKeys inst, key ∉ w.store.locked := by
    intro key hkey
    rw [claimedKeys, hclaim] at hkey
    obtain ⟨kr, hkr, rfl⟩ := List.mem_map.mp hkey
    have hlocked := (mem_claim hkr).2.2
    simpa using hlocked
  have hold : ∀ j key, key ∈ claimedKeys (w.instances j) → key ∈ w.store.locked := fun j key hkey =>
    (h.locked key).mpr ⟨j, hkey⟩
  refine ⟨fun j => ?_, fun j kr hkr => ?_, fun j k hjk key hj hk => ?_, fun key => ?_⟩
  · by_cases hj : j = i
    · subst hj
      rw [World.put_self, claimedKeys, hclaim]
      exact nodup_claim _ _ _ _
    · rw [World.put_of_ne hj]
      exact h.nodup j
  · by_cases hj : j = i
    · subst hj
      rw [World.put_self, hclaim] at hkr
      obtain ⟨hget, hdue, -⟩ := mem_claim hkr
      rw [isDue, Bool.and_eq_true, beq_iff_eq] at hdue
      exact ⟨hget, hdue.1⟩
    · rw [World.put_of_ne hj] at hkr
      exact h.current j kr hkr
  · by_cases hji : j = i
    · subst hji
      rw [World.put_self] at hj
      rw [World.put_of_ne (Ne.symm hjk)] at hk
      exact hfree key hj (hold k key hk)
    · rw [World.put_of_ne hji] at hj
      by_cases hki : k = i
      · subst hki
        rw [World.put_self] at hk
        exact hfree key hk (hold j key hj)
      · rw [World.put_of_ne hki] at hk
        exact h.disjoint j k hjk hj hk
  · change key ∈ (claim _ limit now w.store.tables).map (·.1)++w.store.locked ↔ _
    rw [← hclaim, List.mem_append, h.locked]
    constructor
    · rintro (hnew | ⟨j, hj⟩)
      · exact ⟨i, by rwa [World.put_self]⟩
      · have hji : j ≠ i := by
          rintro rfl
          rw [claimedKeys, hnone] at hj
          cases hj
        exact ⟨j, by rwa [World.put_of_ne hji]⟩
    · rintro ⟨j, hj⟩
      by_cases hji : j = i
      · subst hji
        rw [World.put_self] at hj
        exact Or.inl hj
      · rw [World.put_of_ne hji] at hj
        exact Or.inr ⟨j, hj⟩

omit [DecidableEq ι] in
theorem row_ne_none (h : Claimed w) {key : String} (hkey : key ∈ w.store.locked) :
    (events w)[key]? ≠ none := by
  obtain ⟨i, hi⟩ := (h.locked key).mp hkey
  obtain ⟨kr, hkr, rfl⟩ := List.mem_map.mp hi
  rw [(h.current i kr hkr).1]
  simp

theorem step (h : Claimed w) {a : Action ι} (hstep : w.step (shared U) config a = some w') :
    Claimed w' := by
  cases World.steps_of_step hstep with
  | appended e s happ =>
    rw [show s = ((shared U).append e w.store).2 by rw [happ]]
    exact h.same (fun _ => rfl) rfl fun key hkey =>
      (appends e w.store.tables).row_known (h.row_ne_none hkey)
  | refused e s err happ =>
    rw [show s = ((shared U).append e w.store).2 by rw [happ]]
    exact h.same (fun _ => rfl) rfl fun key hkey =>
      (appends e w.store.tables).row_known (h.row_ne_none hkey)
  | appendLost e => exact h
  | moved i m inst obs hm => exact h.still (claimed_moves hm)
  | idled i now reached hp => exact h.still rfl
  | opened i now claim s hp hopen =>
    rw [show s = ((shared U).openFetch (w.instances i).batchSize now w.store).2 by rw [hopen]]
    refine h.opened (claimed_eq_nil (by simp [hp])) ?_
    rw [hopen]
    rfl
  | spawned i claim due s hp hclose =>
    rw [show s = w.store.unlock claim from (congrArg Prod.snd hclose).symm, ← claimed_of_phase hp]
    exact h.release (claimed_eq_nil (by simp [Instance.spawn]))
  | fetchFailed i claim err s hp hclose =>
    rw [show s = w.store.unlock claim from (congrArg Prod.snd hclose).symm, ← claimed_of_phase hp]
    exact h.release (claimed_eq_nil (by simp))
  | fetchLost i claim hp =>
    change Claimed (w.put i _ (w.store.unlock claim) [])
    rw [← claimed_of_phase hp]
    exact h.release (claimed_eq_nil (by simp))
  | issued i n clock e mark ht hfree =>
    have hunlocked : e.id.text ∉ w.store.locked := by
      simpa [shared] using hfree
    refine h.same (fun j => ?_) (issue_locked clock e.id mark w.store) fun key hkey => ?_
    · by_cases hj : j = i
      · subst hj
        rw [World.put_self]
        rfl
      · rw [World.put_of_ne hj]
    · refine issue_row_other clock mark w.store ?_
      rintro rfl
      exact hunlocked hkey
  | markLost i n clock e mark ht => exact h.still rfl
  | crashed i =>
    have hrelease : (shared U).release (w.instances i) w.store =
        w.store.unlock (claimed (w.instances i)) := by
      unfold Shared.release
      split
      · rename_i claim hp
        rw [claimed_of_phase hp]
        rfl
      · rename_i hp
        rw [claimed_eq_nil hp]
        simp [Db.unlock]
    rw [hrelease]
    exact h.release rfl

end Claimed

/-- `SKIP LOCKED` keeps claims apart. Over any run of any number of instances on one
database, from any tables: the rows an open claim holds are distinct, pending, and
stored at this moment as the claim read them; no two open claims hold the same row;
and a row is locked exactly while some open claim holds it. -/
theorem claims_disjoint [DecidableEq ι] (U : UuidCrate) (config : ι → DispatcherConfig) (t : Tables)
    (w : Fleet ι) (h : (dispatching (shared U) config ⟨t, []⟩).Reachable (fun _ _ => True) w) :
    (∀ i, (claimedKeys (w.instances i)).Nodup ∧ ∀ kr ∈ claimed (w.instances i),
      (events w)[kr.1]? = some kr.2 ∧ kr.2.status = .pending) ∧
    (∀ i j, i ≠ j → (claimedKeys (w.instances i)).Disjoint (claimedKeys (w.instances j))) ∧
    ∀ key, key ∈ w.store.locked ↔ ∃ i, key ∈ claimedKeys (w.instances i) := by
  have hc : Claimed w := h.invariant (claimed_start t) fun _ _ _ hs _ hstep => hs.step hstep
  exact ⟨fun i => ⟨hc.nodup i, hc.current i⟩, hc.disjoint, hc.locked⟩

/-- Two claims are open at once, on the first and on the second event. -/
theorem claims_disjoint_bothFetching : ∃ w : Fleet Bool,
    (dispatching (shared .hyphenatedOnly) (fun _ : Bool => .sample 3) ⟨empty, []⟩).Reachable
      (fun _ _ => True) w ∧ (claimed (w.instances true)).length = 2 ∧
      (claimed (w.instances false)).length = 1 ∧
      (claimedKeys (w.instances true)).Disjoint (claimedKeys (w.instances false)) := by
  have hrun : ((dispatching (shared .hyphenatedOnly) (fun _ : Bool => .sample 3) ⟨empty, []⟩).run
      (fun _ _ => True) (World.start Bool _ ⟨empty, []⟩) [.append (.sample 1 5) true,
        .append (.sample 2 5) true, .append (.sample 3 5) true, .move true .start,
        .move false .start, .tick true 10 true, .tick false 10 true]).any (fun w =>
        (claimed (w.instances true)).length = 2 ∧ (claimed (w.instances false)).length = 1) =
      true := by
    decide +kernel
  obtain ⟨w, hw, hfirst, hsecond⟩ := System.exists_reach hrun
  exact ⟨w, hw, hfirst, hsecond,
    (claims_disjoint .hyphenatedOnly _ empty w hw).2.1 true false (by simp)⟩

def openAll (U : UuidCrate) (now : UInt64) : List UInt64 → Db → List (List (String × EventRow)) × Db
  | [], db => ([], db)
  | limit::limits, db =>
    let (rows, held) := (shared U).openFetch limit now db
    let (rest, last) := openAll U now limits held
    (rows::rest, last)

theorem openAll_eq_shares (U : UuidCrate) (now : UInt64) (limits : List UInt64) (db : Db) :
    (openAll U now limits db).1 = shares (·.1)
      (selectOrdered (·.nextAttemptAt) (isDue now) db.tables.outboxEvents) db.locked
      (limits.map limitRows) := by
  induction limits generalizing db with
  | nil => rfl
  | cons limit limits ih =>
    rw [List.map_cons, shares]
    exact congrArg _ (ih _)

/-- `SKIP LOCKED` shares the due set out. Whatever is locked before, the claims of any
number of instances that race at one moment, put together in the order they open, are
the first due rows in dispatch order that were free, each once and as many as the limits
add up to: what one instance with that limit would have claimed. -/
theorem claims_share (U : UuidCrate) (now : UInt64) (limits : List UInt64) (db : Db) :
    (openAll U now limits db).1.flatten =
      ((selectOrdered (·.nextAttemptAt) (isDue now) db.tables.outboxEvents).filter
        fun kr => !db.locked.contains kr.1).take (limits.map limitRows).sum ∧
    ((openAll U now limits db).1.flatten.map (·.1)).Nodup := by
  have hall : (openAll U now limits db).1.flatten =
      ((selectOrdered (·.nextAttemptAt) (isDue now) db.tables.outboxEvents).filter
        fun kr => !db.locked.contains kr.1).take (limits.map limitRows).sum := by
    rw [openAll_eq_shares, flatten_shares (nodup_due_keys now db.tables)]
    rfl
  refine ⟨hall, ?_⟩
  rw [hall]
  exact (nodup_due_keys now db.tables).sublist
    (((List.take_sublist _ _).trans List.filter_sublist).map _)

end OutboxKit.Postgres
