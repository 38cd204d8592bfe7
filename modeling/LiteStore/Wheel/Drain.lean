import LiteStore.Wheel.Indexed

/-!
# What `pop_due` drains

`Drained w fired due w'` says that `w'` is `w` without the entries satisfying
`fired` and that `due` lists exactly those. Each key visited, each tick drained
and the whole loop extend it by one more set of entries (`visit_drained`,
`drainTick_drained`, `ticks_drained`). The entries that leave are those due at
`now` whose bucket is scanned at a tick that has reached theirs (`Fires`).
-/

namespace LiteStore.TimingWheel
set_option autoImplicit false
open Py

variable {τ : Type} [LinearOrder τ] [Zero τ]

/-- The wheel's configuration and clock position; draining keeps them. -/
def SameFrame (w w' : TimingWheel τ) : Prop :=
  w'.tickSeconds = w.tickSeconds ∧ w'.bucketCount = w.bucketCount ∧
    w'.lastProcessedTick = w.lastProcessedTick ∧ w'.originTimestamp = w.originTimestamp

/-- `w'` is `w` without the entries satisfying `fired`, and `due` lists those. -/
structure Drained (w : TimingWheel τ) (fired : ScheduledEntry τ → Prop)
    (due : List (TimerEntry τ)) (w' : TimingWheel τ) : Prop where
  indexed : w'.Indexed
  frame : SameFrame w w'
  kept : ∀ k e, w'.entriesByKey.get? k = some e ↔ w.entriesByKey.get? k = some e ∧ ¬ fired e
  listed : ∀ x, x ∈ due ↔
    ∃ e, w.entriesByKey.get? e.key = some e ∧ fired e ∧ x = ⟨e.key, e.expiresAt⟩
  distinct : (due.map TimerEntry.key).Nodup

theorem Drained.start {w : TimingWheel τ} (h : w.Indexed) : Drained w (fun _ => False) [] w where
  indexed := h
  frame := ⟨rfl, rfl, rfl, rfl⟩
  kept := by simp
  listed := by simp
  distinct := List.nodup_nil

/-- Only what `fired` says of `w`'s own entries matters. -/
theorem Drained.congr {w w' : TimingWheel τ} {p q : ScheduledEntry τ → Prop} {due}
    (h : Drained w p due w')
    (same : ∀ k e, w.entriesByKey.get? k = some e → (p e ↔ q e)) : Drained w q due w' where
  indexed := h.indexed
  frame := h.frame
  kept k e := by
    rw [h.kept]
    exact and_congr_right fun found => not_congr (same k e found)
  listed x := by
    rw [h.listed]
    exact exists_congr fun e => and_congr_right fun found => and_congr_left' (same e.key e found)
  distinct := h.distinct

section Visit

variable {w : TimingWheel τ} {now : τ} {tick : Int} {p : ScheduledEntry τ → Prop}
  {acc : List (TimerEntry τ) × TimingWheel τ}

theorem visit_absent {key : String} (absent : acc.2.entriesByKey.get? key = none) :
    visit now tick acc key = (acc.1, acc.2.modifyBucket tick fun bucket => bucket.discard key) := by
  simp only [visit, absent]

theorem visit_early {key : String} {e} (found : acc.2.entriesByKey.get? key = some e)
    (early : tick < e.scheduledTick) : visit now tick acc key = acc := by
  simp only [visit, found, gt_iff_lt, if_pos early]

theorem visit_fire {key : String} {e} (found : acc.2.entriesByKey.get? key = some e)
    (reached : e.scheduledTick ≤ tick) (due : e.expiresAt ≤ now) :
    visit now tick acc key = (acc.1 ++ [⟨e.key, e.expiresAt⟩],
      (acc.2.modifyBucket tick fun bucket => bucket.discard key).withEntries
        (acc.2.entriesByKey.erase key)) := by
  simp only [visit, found, gt_iff_lt, if_neg (not_lt.mpr reached), if_pos due,
    modifyBucket_entriesByKey]

theorem visit_requeue {key : String} {e} (found : acc.2.entriesByKey.get? key = some e)
    (reached : e.scheduledTick ≤ tick) (pending : now < e.expiresAt) :
    visit now tick acc key = (acc.1, (acc.2.modifyBucket tick fun bucket =>
      bucket.discard key).modifyBucket e.scheduledTick fun bucket => bucket.add key) := by
  simp only [visit, found, gt_iff_lt, if_neg (not_lt.mpr reached), if_neg (not_le.mpr pending)]

/-- Discarding a key that is not scheduled from a bucket changes no fact. -/
theorem Indexed.discard_absent (h : w.Indexed) {key : String}
    (absent : w.entriesByKey.get? key = none) (t : Int) :
    (w.modifyBucket t fun bucket => bucket.discard key).Indexed := by
  refine ⟨h.keyed, fun k t' => ?_⟩
  rw [bucketForTick_modifyBucket, modifyBucket_entriesByKey, modifyBucket_bucketCount, ← h.bucket]
  split
  · rw [OrdSet.mem_discard]
    refine ⟨And.right, fun member => ⟨?_, member⟩⟩
    rintro rfl
    rw [h.bucket, absent] at member
    simp at member
  · exact Iff.rfl

/-- Moving a scheduled key to its own bucket changes no membership. -/
theorem Indexed.requeue (h : w.Indexed) {key : String} {e} (found : w.entriesByKey.get? key = some e)
    {t : Int} (tick : e.scheduledTick ≡ t [ZMOD w.bucketCount]) :
    ((w.modifyBucket t fun bucket => bucket.discard key).modifyBucket e.scheduledTick
      fun bucket => bucket.add key).Indexed := by
  refine ⟨h.keyed, fun k t' => ?_⟩
  simp only [bucketForTick_modifyBucket, modifyBucket_entriesByKey, modifyBucket_bucketCount,
    ← h.bucket]
  by_cases here : e.scheduledTick ≡ t' [ZMOD w.bucketCount]
  · rw [if_pos here, if_pos (tick.symm.trans here), OrdSet.mem_add, OrdSet.mem_discard]
    constructor
    · rintro (rfl | ⟨_, member⟩)
      · exact (h.bucket _ _).mpr ⟨e, found, here⟩
      · exact member
    · intro member
      by_cases same : k = key
      · exact Or.inl same
      · exact Or.inr ⟨same, member⟩
  · rw [if_neg here, if_neg fun back => here (tick.trans back)]

/-- Removing a scheduled key from its bucket and from the entries. -/
theorem Indexed.remove (h : w.Indexed) {key : String} {e} (found : w.entriesByKey.get? key = some e)
    {t : Int} (tick : e.scheduledTick ≡ t [ZMOD w.bucketCount]) :
    ((w.modifyBucket t fun bucket => bucket.discard key).withEntries
      (w.entriesByKey.erase key)).Indexed := by
  constructor
  · intro k e' found'
    rw [withEntries_entriesByKey, Dict.get?_erase] at found'
    split at found'
    · cases found'
    · exact h.keyed k e' found'
  · intro k t'
    rw [bucketForTick_withEntries, bucketForTick_modifyBucket, withEntries_entriesByKey,
      withEntries_bucketCount, modifyBucket_bucketCount, Dict.get?_erase]
    by_cases same : k = key
    · subst same
      by_cases here : t ≡ t' [ZMOD w.bucketCount]
      · simp [here]
      · have outside : k ∉ w.bucketForTick t' := by
          rw [h.bucket, found]
          rintro ⟨e', equal, back⟩
          cases equal
          exact here (tick.symm.trans back)
        simp [here, outside]
    · rw [if_neg same, ← h.bucket]
      split
      · simp [same]
      · exact Iff.rfl

/-- A key names one entry. -/
theorem Indexed.unique (h : w.Indexed) {key k : String} {e e' : ScheduledEntry τ}
    (found : w.entriesByKey.get? key = some e) (found' : w.entriesByKey.get? k = some e')
    (named : e'.key = key) : e' = e := by
  rw [← h.keyed k e' found', named, found] at found'
  exact (Option.some.inj found').symm

/-- Handing over a scheduled entry and removing it drains its key. -/
theorem Drained.fire (hw : w.Indexed) (h : Drained w p acc.1 acc.2) {key : String} {e}
    (found : acc.2.entriesByKey.get? key = some e)
    (bucket : e.scheduledTick ≡ tick [ZMOD acc.2.bucketCount]) :
    Drained w (fun e' => p e' ∨ e'.key = key) (acc.1 ++ [⟨e.key, e.expiresAt⟩])
      ((acc.2.modifyBucket tick fun bucket => bucket.discard key).withEntries
        (acc.2.entriesByKey.erase key)) := by
  obtain ⟨there, stays⟩ := (h.kept key e).mp found
  have named : e.key = key := h.indexed.keyed key e found
  refine ⟨h.indexed.remove found bucket, h.frame, ?_, ?_, ?_⟩
  · intro k e'
    rw [withEntries_entriesByKey, Dict.get?_erase]
    by_cases same : k = key
    · subst same
      simp only [if_true, reduceCtorEq, false_iff, not_and, not_not]
      exact fun there' => Or.inr (hw.keyed k e' there')
    · rw [if_neg same, h.kept]
      refine and_congr_right fun there' => ?_
      have other : e'.key ≠ key := by rw [hw.keyed k e' there']; exact same
      simp [other]
  · intro x
    rw [List.mem_append, h.listed, List.mem_singleton]
    constructor
    · rintro (⟨e', there', fires, rfl⟩ | rfl)
      · exact ⟨e', there', Or.inl fires, rfl⟩
      · exact ⟨e, named ▸ there, Or.inr named, rfl⟩
    · rintro ⟨e', there', fires | named', rfl⟩
      · exact Or.inl ⟨e', there', fires, rfl⟩
      · rw [hw.unique there there' named']; exact Or.inr rfl
  · have fresh : e.key ∉ acc.1.map TimerEntry.key := by
      intro member
      obtain ⟨x, listed, equal⟩ := List.mem_map.mp member
      obtain ⟨e', there', fires, rfl⟩ := (h.listed x).mp listed
      exact stays (hw.unique there there' (equal.trans named) ▸ fires)
    rw [List.map_append]
    refine List.nodup_append.mpr ⟨h.distinct, List.nodup_singleton _, ?_⟩
    rintro a ha b hb rfl
    rw [List.mem_singleton.mp hb] at ha
    exact fresh ha

/-- Visiting a key of the scanned bucket fires its entry exactly when its tick is
reached and its deadline is not after `now`. -/
theorem visit_drained (now : τ) (hw : w.Indexed) (h : Drained w p acc.1 acc.2) (key : String)
    (filed : ∀ e, acc.2.entriesByKey.get? key = some e →
      e.scheduledTick ≡ tick [ZMOD w.bucketCount]) :
    Drained w (fun e => p e ∨ (e.key = key ∧ e.scheduledTick ≤ tick ∧ e.expiresAt ≤ now))
      (visit now tick acc key).1 (visit now tick acc key).2 := by
  cases found : acc.2.entriesByKey.get? key with
  | none =>
    rw [visit_absent found]
    refine Drained.congr
      ⟨h.indexed.discard_absent found tick, h.frame, h.kept, h.listed, h.distinct⟩ ?_
    intro k e there
    refine ⟨Or.inl, ?_⟩
    rintro (fires | ⟨rfl, _⟩)
    · exact fires
    · by_contra stays
      rw [hw.keyed k e there, (h.kept k e).mpr ⟨there, stays⟩] at found
      cases found
  | some e =>
    have there := ((h.kept key e).mp found).1
    have bucket : e.scheduledTick ≡ tick [ZMOD acc.2.bucketCount] := by
      rw [h.frame.2.1]; exact filed e found
    rcases lt_or_ge tick e.scheduledTick with early | reached
    · rw [visit_early found early]
      refine h.congr fun k e' there' => ⟨Or.inl, ?_⟩
      rintro (fires | ⟨named, reached, _⟩)
      · exact fires
      · rw [hw.unique there there' named] at reached
        exact absurd early (not_lt.mpr reached)
    rcases lt_or_ge now e.expiresAt with pending | due
    · rw [visit_requeue found reached pending]
      refine Drained.congr
        ⟨h.indexed.requeue found bucket, h.frame, h.kept, h.listed, h.distinct⟩ ?_
      intro k e' there'
      refine ⟨Or.inl, ?_⟩
      rintro (fires | ⟨named, _, due⟩)
      · exact fires
      · rw [hw.unique there there' named] at due
        exact absurd pending (not_lt.mpr due)
    · rw [visit_fire found reached due]
      refine (h.fire hw found bucket).congr fun k e' there' => or_congr_right ?_
      refine ⟨fun named => ?_, And.left⟩
      rw [hw.unique there there' named]
      exact ⟨h.indexed.keyed key e found, reached, due⟩

/-- Visiting the keys of one scan. -/
theorem visits_drained (now : τ) (hw : w.Indexed) (keys : List String) (h : Drained w p acc.1 acc.2)
    (filed : ∀ key ∈ keys, ∀ e, acc.2.entriesByKey.get? key = some e →
      e.scheduledTick ≡ tick [ZMOD w.bucketCount]) :
    Drained w (fun e => p e ∨ (e.key ∈ keys ∧ e.scheduledTick ≤ tick ∧ e.expiresAt ≤ now))
      (keys.foldl (visit now tick) acc).1 (keys.foldl (visit now tick) acc).2 := by
  induction keys generalizing p acc with
  | nil => simpa using h
  | cons key keys ih =>
    have step := visit_drained now hw h key (filed key (by simp))
    have shrunk : ∀ k e, (visit now tick acc key).2.entriesByKey.get? k = some e →
        acc.2.entriesByKey.get? k = some e := by
      intro k e found
      obtain ⟨there, stays⟩ := (step.kept k e).mp found
      exact (h.kept k e).mpr ⟨there, fun fires => stays (Or.inl fires)⟩
    refine (ih step fun k member e found => filed k (by simp [member]) e (shrunk k e found)).congr ?_
    intro k e there
    simp only [List.mem_cons]
    tauto

/-- Draining one tick fires what the tick reaches. -/
theorem drainTick_drained (now : τ) (hw : w.Indexed) (h : Drained w p acc.1 acc.2) (tick : Int) :
    Drained w (fun e => p e ∨ (e.scheduledTick ≡ tick [ZMOD w.bucketCount] ∧
        e.scheduledTick ≤ tick ∧ e.expiresAt ≤ now))
      (drainTick now acc tick).1 (drainTick now acc tick).2 := by
  have scanned : ∀ key e, acc.2.entriesByKey.get? key = some e →
      (key ∈ acc.2.bucketForTick tick ↔ e.scheduledTick ≡ tick [ZMOD w.bucketCount]) := by
    intro key e found
    rw [h.indexed.bucket, found, h.frame.2.1]
    simp
  refine (visits_drained now hw (acc.2.bucketForTick tick).elems h
    fun key member e found => (scanned key e found).mp member).congr ?_
  intro k e there
  by_cases fires : p e
  · simp [fires]
  · have named := hw.keyed k e there
    have found := (h.kept k e).mpr ⟨there, fires⟩
    rw [← OrdSet.mem_def, named, scanned k e found]

theorem ticks_drained (now : τ) (hw : w.Indexed) (ticks : List Int)
    (acc : List (TimerEntry τ) × TimingWheel τ) (h : Drained w p acc.1 acc.2) :
    Drained w (fun e => p e ∨ ∃ tick ∈ ticks, e.scheduledTick ≡ tick [ZMOD w.bucketCount] ∧
        e.scheduledTick ≤ tick ∧ e.expiresAt ≤ now)
      (ticks.foldl (drainTick now) acc).1 (ticks.foldl (drainTick now) acc).2 := by
  induction ticks generalizing p acc with
  | nil => simpa using h
  | cons tick ticks ih =>
    refine (ih _ (drainTick_drained now hw h tick)).congr fun k e there => ?_
    simp only [List.mem_cons, exists_eq_or_imp]
    tauto

end Visit

theorem mem_ticksBetween {last current t : Int} :
    t ∈ ticksBetween last current ↔ last < t ∧ t ≤ current := by
  simp only [ticksBetween, List.mem_map, List.mem_range]
  constructor
  · rintro ⟨i, bound, rfl⟩; omega
  · intro bound; exact ⟨(t - last - 1).toNat, by omega, by omega⟩

/-- Some tick in `(last, current]` scans the entry's bucket at or after its tick. -/
def Scanned (count : Nat) (last current scheduled : Int) : Prop :=
  ∃ t, last < t ∧ t ≤ current ∧ scheduled ≤ t ∧ scheduled ≡ t [ZMOD count]

/-- The entries that `pop_due` hands over. -/
def Fires (w : TimingWheel τ) (now : τ) (current : Int) (e : ScheduledEntry τ) : Prop :=
  e.expiresAt ≤ now ∧ Scanned w.bucketCount w.lastProcessedTick current e.scheduledTick

/-- **The drain.** `popDueAt` hands over exactly the entries that fire, each once and in
deadline order, keeps the others, and advances the last processed tick. -/
theorem popDueAt_spec {w : TimingWheel τ} (h : w.Indexed) (now : τ) (current : Int) :
    let due := (w.popDueAt now current).1
    let w' := (w.popDueAt now current).2
    w'.Indexed ∧ w'.tickSeconds = w.tickSeconds ∧ w'.bucketCount = w.bucketCount ∧
      w'.originTimestamp = w.originTimestamp ∧
      w'.lastProcessedTick = max w.lastProcessedTick current ∧
      (∀ k e, w'.entriesByKey.get? k = some e ↔
        w.entriesByKey.get? k = some e ∧ ¬ w.Fires now current e) ∧
      (∀ x, x ∈ due ↔ ∃ e, w.entriesByKey.get? e.key = some e ∧ w.Fires now current e ∧
        x = ⟨e.key, e.expiresAt⟩) ∧
      (due.map TimerEntry.key).Nodup ∧ due.Pairwise fun a b => a.expiresAt ≤ b.expiresAt := by
  intro due w'
  by_cases stale : current ≤ w.lastProcessedTick
  · have none : ∀ e, ¬ w.Fires now current e := by
      rintro e ⟨_, t, after, bound, _⟩; omega
    have same : w.popDueAt now current = ([], w) := by simp only [popDueAt, if_pos stale]
    have hdue : due = [] := congrArg Prod.fst same
    have hw' : w' = w := congrArg Prod.snd same
    rw [hdue, hw']
    simp [h, none, max_eq_left stale]
  · have drained := ticks_drained now h (ticksBetween w.lastProcessedTick current) ([], w)
      (Drained.start h)
    set out := (ticksBetween w.lastProcessedTick current).foldl (drainTick now) ([], w) with hout
    have fires : ∀ e, (False ∨ ∃ tick ∈ ticksBetween w.lastProcessedTick current,
        e.scheduledTick ≡ tick [ZMOD w.bucketCount] ∧ e.scheduledTick ≤ tick ∧
          e.expiresAt ≤ now) ↔ w.Fires now current e := by
      intro e
      simp only [false_or, mem_ticksBetween, Fires, Scanned]
      tauto
    have drained := drained.congr fun _ e _ => fires e
    have same : w.popDueAt now current = (out.1.insertionSort fun a b => a.expiresAt ≤ b.expiresAt,
        { out.2 with lastProcessedTick := current }) := by
      simp only [popDueAt, if_neg stale, hout]
    have hdue : due = out.1.insertionSort fun a b => a.expiresAt ≤ b.expiresAt :=
      congrArg Prod.fst same
    have hw' : w' = { out.2 with lastProcessedTick := current } := congrArg Prod.snd same
    have perm : due.Perm out.1 := hdue ▸ List.perm_insertionSort _ _
    obtain ⟨seconds, count, _, origin⟩ := drained.frame
    refine ⟨?_, ?_, ?_, ?_, ?_, ?_, ?_, ?_, ?_⟩
    · rw [hw']; exact drained.indexed.congr rfl rfl rfl
    · rw [hw']; exact seconds
    · rw [hw']; exact count
    · rw [hw']; exact origin
    · rw [hw', max_eq_right (by omega)]
    · rw [hw']; exact drained.kept
    · intro x; rw [perm.mem_iff]; exact drained.listed x
    · exact (perm.map TimerEntry.key).nodup_iff.mpr drained.distinct
    · rw [hdue]
      have total : Std.Total fun a b : TimerEntry τ => a.expiresAt ≤ b.expiresAt :=
        ⟨fun a b => le_total a.expiresAt b.expiresAt⟩
      have trans : IsTrans (TimerEntry τ) fun a b => a.expiresAt ≤ b.expiresAt :=
        ⟨fun _ _ _ => le_trans⟩
      exact List.pairwise_insertionSort _ _

end LiteStore.TimingWheel
