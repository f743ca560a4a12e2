import ZenonCore.CoinsCache

/-!
# The stack of caches is transparent

A stack of caches answers what one flat map answers: a fresh entry is one that the view below
lacks, and an entry that is not dirty says what it says.
-/

namespace ZenonCore.CacheTransparency

open Primitives Coins CoinsCache Library.Runs List Option

def found (base : CCoinsViewDB) : List CCoinsMap → Uint256 → Option CCoins
  | [], txid => base.coins txid
  | cacheCoins :: below, txid =>
    match cacheCoins.lookup txid with
    | some entry => some entry.coins
    | none => found base below txid

def Held (base : CCoinsViewDB) : List CCoinsMap → Uint256 → Prop
  | [], txid => (base.coins txid).isSome = true
  | cacheCoins :: _, txid => (cacheCoins.lookup txid).isSome = true

structure EntryLinked (base : CCoinsViewDB) (below : List CCoinsMap) (txid : Uint256)
    (entry : CCoinsCacheEntry) : Prop where
  clean : entry.coins.cleanup = entry.coins
  fresh : entry.fresh = true → live (found base below txid) = none
  held : entry.fresh = false → Held base below txid
  same : entry.dirty = false → live (some entry.coins) = live (found base below txid)

def CacheLinked (base : CCoinsViewDB) (below : List CCoinsMap) (cacheCoins : CCoinsMap) : Prop :=
  ∀ txid entry, cacheCoins.lookup txid = some entry → EntryLinked base below txid entry

def Linked (base : CCoinsViewDB) : List CCoinsMap → Prop
  | [] => True
  | cacheCoins :: below => CacheLinked base below cacheCoins ∧ Linked base below

section Views

variable (base : CCoinsViewDB)

theorem found_of_lookup {cacheCoins : CCoinsMap} {txid : Uint256} {entry : CCoinsCacheEntry}
    (looked : cacheCoins.lookup txid = some entry) (below : List CCoinsMap) :
    found base (cacheCoins :: below) txid = some entry.coins := by
  simp only [found, looked]

theorem found_of_missing {cacheCoins : CCoinsMap} {txid : Uint256}
    (missing : cacheCoins.lookup txid = none) (below : List CCoinsMap) :
    found base (cacheCoins :: below) txid = found base below txid := by
  simp only [found, missing]

theorem found_clean (caches : List CCoinsMap) (linked : Linked base caches) (txid : Uint256)
    (coins : CCoins) (isFound : found base caches txid = some coins) :
    coins.cleanup = coins := by
  induction caches with
  | nil => exact (base.serialised txid coins isFound).2
  | cons cacheCoins below ih =>
    cases looked : cacheCoins.lookup txid with
    | none =>
      rw [found_of_missing base looked] at isFound
      exact ih linked.2 isFound
    | some entry =>
      rw [found_of_lookup base looked] at isFound
      rw [← some.inj isFound]
      exact (linked.1 txid entry looked).clean

/-- An entry stays linked when the view below it says the same and loses
nothing it relies on. -/
theorem EntryLinked.congr {base base' : CCoinsViewDB} {below below' : List CCoinsMap}
    {txid : Uint256} {entry : CCoinsCacheEntry} (linked : EntryLinked base below txid entry)
    (same : live (found base' below' txid) = live (found base below txid))
    (kept : entry.fresh = false → Held base below txid → Held base' below' txid) :
    EntryLinked base' below' txid entry where
  clean := linked.clean
  fresh := fun fresh => same.trans (linked.fresh fresh)
  held := fun stale => kept stale (linked.held stale)
  same := fun clean => (linked.same clean).trans same.symm

structure SameAnswers (caches after : List CCoinsMap) : Prop where
  length : after.length = caches.length
  answers : ∀ other, found base after other = found base caches other
  held : ∀ other, Held base caches other → Held base after other
  linked : Linked base caches → Linked base after

structure Fetched (caches : List CCoinsMap) (txid : Uint256) (after : List CCoinsMap) : Prop
    extends SameAnswers base caches after where
  fetched : (found base caches txid).isSome = true → Held base after txid

variable {base}

variable (caches : List CCoinsMap)

theorem SameAnswers.refl : SameAnswers base caches caches where
  length := rfl
  answers := fun _ => rfl
  held := fun _ held => held
  linked := fun linked => linked

theorem CacheLinked.congr {cacheCoins : CCoinsMap} {below after : List CCoinsMap}
    (linked : CacheLinked base below cacheCoins) (same : SameAnswers base below after) :
    CacheLinked base after cacheCoins := by
  intro txid entry looked
  apply (linked txid entry looked).congr
  · rw [same.answers txid]
  · exact fun _ held => same.held txid held

theorem Fetched.insert {cacheCoins : CCoinsMap} {below after : List CCoinsMap} {txid : Uint256}
    {coins : CCoins} (missing : cacheCoins.lookup txid = none)
    (isFound : found base below txid = some coins) (fetched : Fetched base below txid after) :
    Fetched base (cacheCoins :: below) txid (cacheCoins.insert txid
      { coins := coins, dirty := false, fresh := coins.isPruned } :: after) where
  length := congrArg Nat.succ fetched.length
  answers := by
    intro other
    by_cases same : other = txid
    · subst same
      rw [found_of_lookup base (AList.lookup_insert cacheCoins), found_of_missing base missing,
        isFound]
    · simp only [found, AList.lookup_insert_ne same, fetched.answers other]
  held := by
    intro other held
    by_cases same : other = txid
    · subst same
      simp only [Held, AList.lookup_insert, isSome_some]
    · simpa only [Held, AList.lookup_insert_ne same] using held
  fetched := fun _ => by simp only [Held, AList.lookup_insert, isSome_some]
  linked := by
    intro linked
    refine ⟨fun other entry looked => ?_, fetched.linked linked.2⟩
    by_cases same : other = txid
    · subst same
      rw [AList.lookup_insert] at looked
      cases looked
      exact
        { clean := found_clean base below linked.2 other coins isFound
          fresh := fun pruned => by
            rw [fetched.answers other, isFound]
            exact live_of_pruned pruned
          held := fun _ => fetched.fetched (by rw [isFound]; rfl)
          same := fun _ => by rw [fetched.answers other, isFound] }
    · rw [AList.lookup_insert_ne same] at looked
      exact linked.1.congr fetched.toSameAnswers other entry looked

theorem Fetched.below {cacheCoins : CCoinsMap} {below after : List CCoinsMap} {txid : Uint256}
    (missing : cacheCoins.lookup txid = none) (isFound : found base below txid = none)
    (fetched : Fetched base below txid after) :
    Fetched base (cacheCoins :: below) txid (cacheCoins :: after) where
  length := congrArg Nat.succ fetched.length
  answers := fun other => by simp only [found, fetched.answers other]
  held := fun _ held => held
  fetched := by
    intro somewhere
    rw [found_of_missing base missing, isFound] at somewhere
    cases somewhere
  linked := fun linked => ⟨linked.1.congr fetched.toSameAnswers, fetched.linked linked.2⟩

theorem getCoins_spec (txid : Uint256) :
    (getCoins base caches txid).1 = found base caches txid ∧
      Fetched base caches txid (getCoins base caches txid).2 := by
  induction caches with
  | nil => exact ⟨rfl, SameAnswers.refl [], fun somewhere => somewhere⟩
  | cons cacheCoins below ih =>
    obtain ⟨answer, fetched⟩ := ih
    cases looked : cacheCoins.lookup txid with
    | some entry =>
      simp only [getCoins, looked, found_of_lookup base looked, true_and]
      exact ⟨SameAnswers.refl _, fun _ => by simp only [Held, looked, isSome_some]⟩
    | none =>
      rw [found_of_missing base looked]
      simp only [getCoins, looked]
      cases fetching : getCoins base below txid with
      | mk result after =>
        rw [fetching] at answer fetched
        cases result with
        | none => exact ⟨answer, Fetched.below looked answer.symm fetched⟩
        | some coins => exact ⟨answer, Fetched.insert looked answer.symm fetched⟩

/-- Asking for the outputs is asking whether the entry is pruned, since the
entries are trimmed. -/
theorem haveCoins_spec (linked : Linked base caches) (txid : Uint256) :
    haveCoins base caches txid = (live (found base caches txid)).isSome := by
  cases caches with
  | nil =>
    simp only [haveCoins, found]
    cases stored : base.coins txid with
    | none => rfl
    | some coins =>
      rw [live_of_unspent (base.serialised txid coins stored).1]
  | cons cacheCoins below =>
    simp only [haveCoins, (@getCoins_spec base (cacheCoins :: below) txid).1]
    cases isFound : found base (cacheCoins :: below) txid with
    | none => rfl
    | some coins =>
      have trimmed := isPruned_of_clean (found_clean base _ linked txid coins isFound)
      rw [any_some, ← trimmed]
      cases pruned : coins.isPruned with
      | true => rw [live_of_pruned pruned]; rfl
      | false => rw [live_of_unspent pruned]; rfl

end Views

section Modifying

variable {base : CCoinsViewDB}

/-- An edit that cannot tell a pruned entry from a cleared one, as the
comparison of `CCoins` does not. -/
def IgnoresPruned (edit : CCoins → CCoins) : Prop :=
  ∀ coins, coins.isPruned = true →
    live (some (edit coins).cleanup) = live (some (edit CCoins.clear).cleanup)

/-- The edit of an entry in a flat map without pruned entries. -/
def editEntry (edit : CCoins → CCoins) (entry : Option CCoins) : Option CCoins :=
  live (some (edit (entry.getD CCoins.clear)).cleanup)

theorem editEntry_live (edit : CCoins → CCoins) (ignores : IgnoresPruned edit) (coins : CCoins) :
    editEntry edit (live (some coins)) = live (some (edit coins).cleanup) := by
  unfold editEntry
  cases pruned : coins.isPruned with
  | true =>
    rw [live_of_pruned pruned, ignores coins pruned]
    rfl
  | false =>
    rw [live_of_unspent pruned]
    rfl

/-- The entry that is handed out, and what it takes from below. -/
structure HandedOut (cacheCoins : CCoinsMap) (below : List CCoinsMap) (txid : Uint256)
    (entry : CCoinsCacheEntry) (after : List CCoinsMap) : Prop
    extends SameAnswers base below after where
  coins : live (some entry.coins) = live (found base (cacheCoins :: below) txid)
  dirty : entry.dirty = true
  fresh : entry.fresh = true → live (found base below txid) = none
  own : entry.fresh = false → Held base after txid

variable (cacheCoins : CCoinsMap) (below : List CCoinsMap)

theorem modifiedEntry_spec (linked : CacheLinked base below cacheCoins) (txid : Uint256) :
    @HandedOut base cacheCoins below txid
      (modifiedEntry base cacheCoins below txid).1
      (modifiedEntry base cacheCoins below txid).2 := by
  unfold modifiedEntry
  cases looked : cacheCoins.lookup txid with
  | some entry =>
    exact
      { toSameAnswers := SameAnswers.refl below
        coins := by rw [found_of_lookup base looked]
        dirty := rfl
        fresh := (linked txid entry looked).fresh
        own := (linked txid entry looked).held }
  | none =>
    obtain ⟨answer, fetched⟩ := @getCoins_spec base below txid
    cases fetching : getCoins base below txid with
    | mk result after =>
      rw [fetching] at answer fetched
      cases result with
      | none =>
        exact
          { toSameAnswers := fetched.toSameAnswers
            coins := by
              rw [found_of_missing base looked, ← answer]
              rfl
            dirty := rfl
            fresh := fun _ => by
              rw [← answer]
              rfl
            own := fun stale => by cases stale }
      | some coins =>
        exact
          { toSameAnswers := fetched.toSameAnswers
            coins := by rw [found_of_missing base looked, ← answer]
            dirty := rfl
            fresh := fun pruned => by
              rw [← answer]
              exact live_of_pruned pruned
            own := fun _ => fetched.fetched (by rw [← answer]; rfl) }

/-- An entry of the cache changed or gone, over a view with the same answers. -/
structure Modified (cacheCoins : CCoinsMap) (below : List CCoinsMap) (txid : Uint256)
    (answer : Option CCoins) (cacheCoins' : CCoinsMap) (below' : List CCoinsMap) : Prop where
  length : below'.length = below.length
  linked : Linked base (cacheCoins' :: below')
  here : live (found base (cacheCoins' :: below') txid) = answer
  elsewhere : ∀ other, other ≠ txid → cacheCoins'.lookup other = cacheCoins.lookup other ∧
    found base (cacheCoins' :: below') other = found base (cacheCoins :: below) other

theorem Modified.of_lookup {cacheCoins cacheCoins' : CCoinsMap} {below after : List CCoinsMap}
    {txid : Uint256} {answer : Option CCoins} (linked : Linked base (cacheCoins :: below))
    (same : SameAnswers base below after)
    (others : ∀ other, other ≠ txid → cacheCoins'.lookup other = cacheCoins.lookup other)
    (own : ∀ entry, cacheCoins'.lookup txid = some entry → EntryLinked base after txid entry)
    (here : live (found base (cacheCoins' :: after) txid) = answer) :
    @Modified base cacheCoins below txid answer cacheCoins' after where
  length := same.length
  linked := by
    refine ⟨fun other entry looked => ?_, same.linked linked.2⟩
    by_cases isHere : other = txid
    · subst isHere
      exact own entry looked
    · rw [others other isHere] at looked
      exact linked.1.congr same other entry looked
  here := here
  elsewhere := fun other isOther =>
    ⟨others other isOther, by simp only [found, others other isOther, same.answers other]⟩

theorem modifyCoins_spec (linked : Linked base (cacheCoins :: below)) (txid : Uint256) (edit : CCoins → CCoins)
    (ignores : IgnoresPruned edit) :
    ∃ cacheCoins' below', modifyCoins base txid edit (cacheCoins :: below) =
        cacheCoins' :: below' ∧
      @Modified base cacheCoins below txid
        (editEntry edit (live (found base (cacheCoins :: below) txid))) cacheCoins' below' := by
  have handed := modifiedEntry_spec cacheCoins below linked.1 txid
  simp only [modifyCoins]
  generalize modifiedEntry base cacheCoins below txid = handedOut at handed
  have edited : live (some (edit handedOut.1.coins).cleanup) =
      editEntry edit (live (found base (cacheCoins :: below) txid)) := by
    rw [← handed.coins, editEntry_live edit ignores]
  refine ⟨_, _, rfl, ?_⟩
  apply Modified.of_lookup linked handed.toSameAnswers
  · intro other isOther
    split
    · exact AList.lookup_erase_ne isOther
    · exact AList.lookup_insert_ne isOther
  · intro entry looked
    split at looked
    · rw [AList.lookup_erase] at looked
      cases looked
    · rw [AList.lookup_insert] at looked
      cases looked
      exact
        { clean := cleanup_idem _
          fresh := fun fresh => by
            rw [handed.answers txid]
            exact handed.fresh fresh
          held := handed.own
          same := fun clean => by
            rw [handed.dirty] at clean
            cases clean }
  · rw [← edited]
    split
    · rename_i gone
      rw [Bool.and_eq_true] at gone
      rw [found_of_missing base (AList.lookup_erase txid cacheCoins), handed.answers txid,
        handed.fresh gone.1, live_of_pruned gone.2]
    · rw [found_of_lookup base (AList.lookup_insert cacheCoins)]

end Modifying

section Flushing

/-- What a dirty entry makes of the one the cache below has; `none` where the
assertion fails. -/
def mergeEntry (ours : Option CCoinsCacheEntry) (theirs : CCoinsCacheEntry) :
    Option (Option CCoinsCacheEntry) :=
  if !theirs.dirty then some ours
  else
    match ours with
    | none =>
      if theirs.coins.isPruned then some none
      else if theirs.fresh then
        some (some { coins := theirs.coins, dirty := true, fresh := true })
      else none
    | some ours =>
      if ours.fresh && theirs.coins.isPruned then some none
      else some (some { ours with coins := theirs.coins, dirty := true })

theorem batchWriteEntry_spec (cacheCoins : CCoinsMap) (txid : Uint256)
    (theirs : CCoinsCacheEntry) (merged : Option CCoinsCacheEntry)
    (merges : mergeEntry (cacheCoins.lookup txid) theirs = some merged) :
    ∃ after, batchWriteEntry cacheCoins ⟨txid, theirs⟩ = some after ∧
      after.lookup txid = merged ∧
      ∀ other, other ≠ txid → after.lookup other = cacheCoins.lookup other := by
  unfold mergeEntry at merges
  unfold batchWriteEntry
  split at merges
  · rename_i clean
    cases merges
    rw [if_pos clean]
    exact ⟨cacheCoins, rfl, rfl, fun _ _ => rfl⟩
  · rename_i dirty
    rw [if_neg dirty]
    cases ours : cacheCoins.lookup txid with
    | none =>
      simp only [ours] at merges ⊢
      split at merges
      · rename_i pruned
        cases merges
        rw [if_pos pruned]
        exact ⟨cacheCoins, rfl, ours, fun _ _ => rfl⟩
      · rename_i unspent
        split at merges
        · rename_i fresh
          cases merges
          rw [if_neg unspent, if_pos fresh]
          exact ⟨_, rfl, AList.lookup_insert cacheCoins, fun _ => AList.lookup_insert_ne⟩
        · cases merges
    | some entry =>
      simp only [ours] at merges ⊢
      split at merges
      · rename_i gone
        cases merges
        rw [if_pos gone]
        exact ⟨_, rfl, AList.lookup_erase txid cacheCoins, fun _ => AList.lookup_erase_ne⟩
      · rename_i stays
        cases merges
        rw [if_neg stays]
        exact ⟨_, rfl, AList.lookup_insert cacheCoins, fun _ => AList.lookup_insert_ne⟩

def mergeInto (ours theirs : Option CCoinsCacheEntry) : Option (Option CCoinsCacheEntry) :=
  match theirs with
  | none => some ours
  | some theirs => mergeEntry ours theirs

theorem batchWrite_entries (entries : List (Sigma fun _ : Uint256 => CCoinsCacheEntry))
    (nodup : entries.NodupKeys) (cacheCoins : CCoinsMap)
    (merges : ∀ txid theirs, entries.dlookup txid = some theirs →
      (mergeEntry (cacheCoins.lookup txid) theirs).isSome = true) :
    ∃ after, entries.foldlM batchWriteEntry cacheCoins = some after ∧
      ∀ txid, mergeInto (cacheCoins.lookup txid) (entries.dlookup txid) =
        some (after.lookup txid) := by
  induction entries generalizing cacheCoins with
  | nil => exact ⟨cacheCoins, rfl, fun _ => rfl⟩
  | cons item rest ih =>
    obtain ⟨txid, theirs⟩ := item
    obtain ⟨new, restNodup⟩ := nodupKeys_cons.mp nodup
    have absent : rest.dlookup txid = none := dlookup_eq_none.mpr new
    rcases isSome_iff_exists.mp (merges txid theirs (dlookup_cons_eq rest txid theirs))
      with ⟨merged, isMerged⟩
    rcases batchWriteEntry_spec cacheCoins txid theirs merged isMerged with
      ⟨middle, written, here, elsewhere⟩
    have later : ∀ other entry, rest.dlookup other = some entry →
        (mergeEntry (middle.lookup other) entry).isSome = true := by
      intro other entry looked
      have isOther : other ≠ txid := by
        intro same
        rw [same, absent] at looked
        cases looked
      rw [elsewhere other isOther]
      apply merges other entry
      rw [dlookup_cons_ne rest ⟨txid, theirs⟩ isOther]
      exact looked
    obtain ⟨after, done, looked⟩ := ih restNodup middle later
    refine ⟨after, ?_, fun other => ?_⟩
    · rw [foldlM_cons, written]
      exact done
    · by_cases isHere : other = txid
      · subst isHere
        have unchanged := looked other
        rw [absent, here] at unchanged
        rw [dlookup_cons_eq, ← unchanged]
        exact isMerged
      · rw [dlookup_cons_ne rest ⟨txid, theirs⟩ isHere, ← elsewhere other isHere]
        exact looked other

variable {base : CCoinsViewDB}

theorem merge_linked {ours : Option CCoinsCacheEntry} {theirs : CCoinsCacheEntry} {txid : Uint256}
    {parent : CCoinsMap} {below : List CCoinsMap} (isOurs : parent.lookup txid = ours)
    (linked : EntryLinked base (parent :: below) txid theirs)
    (parentLinked : CacheLinked base below parent) :
    ∃ merged, mergeEntry ours theirs = some merged ∧
      (∀ entry, merged = some entry → EntryLinked base below txid entry) ∧
      live (match merged with
        | none => found base below txid
        | some entry => some entry.coins) = live (some theirs.coins) := by
  unfold mergeEntry
  split
  · rename_i clean
    have same := linked.same (by simpa using clean)
    refine ⟨ours, rfl, fun entry isEntry => parentLinked txid entry (isOurs.trans isEntry), ?_⟩
    rw [same]
    simp only [found, isOurs]
    split
    · rfl
    · rfl
  cases ours with
  | none =>
    -- what the cache below lacks is fresh above
    have fresh : theirs.fresh = true := by
      by_contra stale
      have held := linked.held (by simpa using stale)
      simp only [Held, isOurs] at held
      cases held
    have absent := linked.fresh fresh
    rw [found_of_missing base isOurs] at absent
    simp only
    split
    · rename_i pruned
      refine ⟨none, rfl, fun entry isEntry => (by cases isEntry), ?_⟩
      rw [live_of_pruned pruned]
      exact absent
    · refine ⟨_, rfl, fun entry isEntry => ?_, rfl⟩
      cases isEntry
      exact
        { clean := linked.clean
          fresh := fun _ => absent
          held := fun stale => by cases stale
          same := fun clean => by cases clean }
  | some entry =>
    have own := parentLinked txid entry isOurs
    simp only
    split
    · rename_i gone
      rw [Bool.and_eq_true] at gone
      refine ⟨none, rfl, fun entry isEntry => (by cases isEntry), ?_⟩
      rw [live_of_pruned gone.2]
      exact own.fresh gone.1
    · refine ⟨_, rfl, fun entry isEntry => ?_, rfl⟩
      cases isEntry
      exact
        { clean := linked.clean
          fresh := own.fresh
          held := own.held
          same := fun clean => by cases clean }

theorem batchWrite_linked (cacheCoins parent : CCoinsMap) (below : List CCoinsMap)
    (linked : Linked base (cacheCoins :: parent :: below)) :
    ∃ after, batchWrite parent cacheCoins = some after ∧ Linked base (after :: below) ∧
      ∀ txid, live (found base (after :: below) txid) =
        live (found base (cacheCoins :: parent :: below) txid) := by
  have mergesAll : ∀ txid theirs, cacheCoins.lookup txid = some theirs →
      (mergeEntry (parent.lookup txid) theirs).isSome = true := by
    intro txid theirs looked
    obtain ⟨merged, isMerged, _⟩ := merge_linked rfl (linked.1 txid theirs looked) linked.2.1
    rw [isMerged]
    rfl
  rcases batchWrite_entries cacheCoins.entries cacheCoins.nodupKeys parent mergesAll with
    ⟨after, written, looked⟩
  refine ⟨after, written, ⟨fun txid entry isEntry => ?_, linked.2.2⟩, fun txid => ?_⟩
  · have merged := looked txid
    cases above : cacheCoins.lookup txid with
    | none =>
      rw [show cacheCoins.entries.dlookup txid = none from above] at merged
      rw [← some.inj merged] at isEntry
      exact linked.2.1 txid entry isEntry
    | some theirs =>
      rw [show cacheCoins.entries.dlookup txid = some theirs from above] at merged
      rcases merge_linked rfl (linked.1 txid theirs above) linked.2.1 with
        ⟨result, isResult, entries, _⟩
      exact entries entry (some.inj ((isResult.symm.trans merged).trans
        (congrArg some isEntry)))
  · have merged := looked txid
    cases above : cacheCoins.lookup txid with
    | none =>
      rw [show cacheCoins.entries.dlookup txid = none from above] at merged
      rw [found_of_missing base above]
      simp only [found, ← some.inj merged]
    | some theirs =>
      rw [show cacheCoins.entries.dlookup txid = some theirs from above] at merged
      rcases merge_linked rfl (linked.1 txid theirs above) linked.2.1 with
        ⟨result, isResult, _, answer⟩
      rw [found_of_lookup base above, ← answer]
      have same : after.lookup txid = result :=
        some.inj (merged.symm.trans isResult)
      simp only [found, same]
      cases result with
      | none => rfl
      | some entry => rfl

def written (ours : Option CCoins) (theirs : Option CCoinsCacheEntry) : Option CCoins :=
  match theirs with
  | none => ours
  | some entry =>
    if entry.dirty then
      if entry.coins.isPruned then none else some entry.coins.cleanup
    else ours

theorem writeEntries_coins (entries : List (Sigma fun _ : Uint256 => CCoinsCacheEntry))
    (nodup : entries.NodupKeys) (base : CCoinsViewDB) (txid : Uint256) :
    (entries.foldl CCoinsViewDB.writeEntry base).coins txid =
      written (base.coins txid) (entries.dlookup txid) := by
  induction entries generalizing base with
  | nil => rfl
  | cons item rest ih =>
    obtain ⟨key, entry⟩ := item
    obtain ⟨new, restNodup⟩ := nodupKeys_cons.mp nodup
    rw [foldl_cons, ih restNodup]
    by_cases same : txid = key
    · subst same
      rw [dlookup_cons_eq, dlookup_eq_none.mpr new]
      simp only [written, CCoinsViewDB.writeEntry, and_true]
    · rw [dlookup_cons_ne rest ⟨key, entry⟩ same]
      simp only [CCoinsViewDB.writeEntry, same, and_false, if_false]

theorem databaseWrite_answers (cacheCoins : CCoinsMap) (linked : Linked base [cacheCoins])
    (txid : Uint256) :
    live ((base.batchWrite cacheCoins).coins txid) = live (found base [cacheCoins] txid) := by
  rw [CCoinsViewDB.batchWrite, writeEntries_coins cacheCoins.entries cacheCoins.nodupKeys]
  cases above : cacheCoins.lookup txid with
  | none =>
    rw [found_of_missing base above, show cacheCoins.entries.dlookup txid = none from above]
    rfl
  | some entry =>
    have own := linked.1 txid entry above
    rw [found_of_lookup base above, show cacheCoins.entries.dlookup txid = some entry from above]
    simp only [written, own.clean]
    split
    · split
      · rename_i pruned
        rw [live_of_pruned pruned]
        rfl
      · rfl
    · rename_i clean
      exact (own.same (by simpa using clean)).symm

theorem flush_spec (cacheCoins : CCoinsMap) (below : List CCoinsMap)
    (linked : Linked base (cacheCoins :: below)) :
    ∃ base' below', flush base (cacheCoins :: below) = some (base', ∅ :: below') ∧
      below'.length = below.length ∧ Linked base' (∅ :: below') ∧
      ∀ txid, live (found base' (∅ :: below') txid) =
        live (found base (cacheCoins :: below) txid) := by
  have empty : ∀ (base : CCoinsViewDB) (below : List CCoinsMap), CacheLinked base below ∅ := by
    intro base below txid entry looked
    rw [AList.lookup_empty] at looked
    cases looked
  cases below with
  | nil =>
    refine ⟨base.batchWrite cacheCoins, [], rfl, rfl, ⟨empty _ _, trivial⟩, fun txid => ?_⟩
    rw [found_of_missing _ (AList.lookup_empty txid)]
    exact databaseWrite_answers cacheCoins linked txid
  | cons parent rest =>
    obtain ⟨after, done, parentLinked, same⟩ := batchWrite_linked cacheCoins parent rest linked
    refine ⟨base, after :: rest, ?_, rfl, ⟨empty _ _, parentLinked⟩, fun txid => ?_⟩
    · simp only [flush, done, map_some]
    · rw [found_of_missing _ (AList.lookup_empty txid)]
      exact same txid

end Flushing

theorem found_above {base base' : CCoinsViewDB} (above : List CCoinsMap)
    {here here' : List CCoinsMap} {txid : Uint256}
    (same : live (found base' here' txid) = live (found base here txid)) :
    live (found base' (above ++ here') txid) = live (found base (above ++ here) txid) := by
  induction above with
  | nil => exact same
  | cons cacheCoins rest ih =>
    cases looked : cacheCoins.lookup txid with
    | none =>
      rw [cons_append, cons_append, found_of_missing _ looked,
        found_of_missing _ looked]
      exact ih
    | some entry =>
      rw [cons_append, cons_append, found_of_lookup _ looked,
        found_of_lookup _ looked]

theorem found_through (base : CCoinsViewDB) (above here : List CCoinsMap) (txid : Uint256)
    (missing : ∀ cacheCoins ∈ above, cacheCoins.lookup txid = none) :
    found base (above ++ here) txid = found base here txid := by
  induction above with
  | nil => rfl
  | cons cacheCoins rest ih =>
    rw [cons_append, found_of_missing base (missing cacheCoins mem_cons_self)]
    exact ih fun other member => missing other (mem_cons_of_mem _ member)

theorem linked_drop {base : CCoinsViewDB} (above here : List CCoinsMap)
    (linked : Linked base (above ++ here)) : Linked base here := by
  induction above with
  | nil => exact linked
  | cons cacheCoins rest ih => exact ih linked.2

theorem linked_above {base base' : CCoinsViewDB} (above : List CCoinsMap)
    {here here' : List CCoinsMap} (linked : Linked base (above ++ here))
    (changed : Linked base' here')
    (same : ∀ cacheCoins ∈ above, ∀ txid, (cacheCoins.lookup txid).isSome = true →
      live (found base' here' txid) = live (found base here txid))
    (kept : ∀ cacheCoins ∈ above.getLast?, ∀ txid entry, cacheCoins.lookup txid = some entry →
      entry.fresh = false → Held base here txid → Held base' here' txid) :
    Linked base' (above ++ here') := by
  induction above with
  | nil => exact changed
  | cons cacheCoins rest ih =>
    constructor
    · intro txid entry looked
      apply (linked.1 txid entry looked).congr
      · apply found_above
        exact same cacheCoins mem_cons_self txid (by rw [looked]; rfl)
      · intro stale held
        cases rest with
        | nil => exact kept cacheCoins (by simp) txid entry looked stale held
        | cons next others => exact held
    · apply ih linked.2
      · exact fun other member => same other (mem_cons_of_mem _ member)
      · intro last isLast
        apply kept last
        cases rest with
        | nil => cases isLast
        | cons next others =>
          rw [getLast?_cons_cons]
          exact isLast

/-- How the stack is used: edits do not look into pruned entries, no entry is modified below a cache
that has fetched it or flushed below one that builds on it. -/
def Disciplined (views : CoinsViews) (event : Event) : Prop :=
  match event.operation with
  | .getCoins _ | .haveCoins _ | .accessCoins _ => True
  | .modifyCoins txid edit =>
    event.level < views.caches.length ∧ IgnoresPruned edit ∧
      ∀ cacheCoins ∈ views.caches.take event.level, cacheCoins.lookup txid = none
  | .flush =>
    event.level < views.caches.length ∧
      ∀ cacheCoins ∈ (views.caches.take event.level).getLast?, ∀ txid entry,
        cacheCoins.lookup txid = some entry → entry.fresh = true

/-- The same operation on one flat map without pruned entries. -/
def applyEdit (flat : Uint256 → Option CCoins) (event : Event) : Uint256 → Option CCoins :=
  match event.operation with
  | .modifyCoins txid edit => fun other =>
    if other = txid then editEntry edit (flat txid) else flat other
  | _ => flat

structure StandsFor (count : Nat) (views : CoinsViews) (flat : Uint256 → Option CCoins) :
    Prop where
  length : views.caches.length = count
  linked : Linked views.base views.caches
  answers : ∀ txid, live (found views.base views.caches txid) = flat txid

theorem read_standsFor {count : Nat} {views : CoinsViews} {flat : Uint256 → Option CCoins}
    (stands : StandsFor count views flat) (level : Nat) (txid : Uint256) :
    StandsFor count
      { views with
        caches := views.caches.take level ++
          (getCoins views.base (views.caches.drop level) txid).2 } flat := by
  obtain ⟨_, fetched⟩ := @getCoins_spec views.base (views.caches.drop level) txid
  have linked := stands.linked
  have answers := stands.answers
  rw [← take_append_drop level views.caches] at linked
  exact
    { length := by
        rw [length_append, fetched.length, ← length_append, take_append_drop]
        exact stands.length
      linked := by
        apply linked_above _ linked (fetched.linked (linked_drop _ _ linked))
        · intro _ _ other _
          rw [fetched.answers other]
        · exact fun _ _ other _ _ _ held => fetched.held other held
      answers := fun other => by
        rw [← answers other]
        conv_rhs => rw [← take_append_drop level views.caches]
        apply found_above
        rw [fetched.answers other] }

theorem modify_standsFor {count : Nat} {views : CoinsViews} {flat : Uint256 → Option CCoins}
    (stands : StandsFor count views flat) (level : Nat) (inside : level < views.caches.length)
    (txid : Uint256) (edit : CCoins → CCoins) (ignores : IgnoresPruned edit)
    (unseen : ∀ cacheCoins ∈ views.caches.take level, cacheCoins.lookup txid = none) :
    StandsFor count
      { views with
        caches := views.caches.take level ++
          modifyCoins views.base txid edit (views.caches.drop level) }
      (fun other => if other = txid then editEntry edit (flat txid) else flat other) := by
  have linked := stands.linked
  have answers := stands.answers
  have length := stands.length
  rw [← take_append_drop level views.caches] at linked answers length
  rw [drop_eq_getElem_cons inside] at linked answers length ⊢
  generalize views.caches.drop (level + 1) = below at linked answers length ⊢
  generalize views.caches[level] = cacheCoins at linked answers length ⊢
  generalize views.caches.take level = above at linked answers length unseen ⊢
  rcases modifyCoins_spec cacheCoins below (linked_drop above _ linked) txid edit ignores with
    ⟨cacheCoins', below', modified, spec⟩
  rw [modified]
  exact
    { length := by
        rw [← length]
        simp only [length_append, length_cons, spec.length]
      linked := by
        apply linked_above above linked spec.linked
        · intro cache member other looked
          have isOther : other ≠ txid := by
            intro same
            rw [same, unseen cache member] at looked
            cases looked
          rw [(spec.elsewhere other isOther).2]
        · intro cache isLast other entry looked _ held
          have isOther : other ≠ txid := by
            intro same
            rw [same, unseen cache (mem_of_getLast? isLast)] at looked
            cases looked
          simpa only [Held, (spec.elsewhere other isOther).1] using held
      answers := fun other => by
        by_cases isHere : other = txid
        · subst isHere
          rw [if_pos rfl, ← answers other, found_through _ _ _ _ unseen,
            found_through _ _ _ _ unseen]
          exact spec.here
        · rw [if_neg isHere, ← answers other]
          apply found_above
          rw [(spec.elsewhere other isHere).2] }

theorem flush_standsFor {count : Nat} {views : CoinsViews} {flat : Uint256 → Option CCoins}
    (stands : StandsFor count views flat) (level : Nat) (inside : level < views.caches.length)
    (fresh : ∀ cacheCoins ∈ (views.caches.take level).getLast?, ∀ txid entry,
      cacheCoins.lookup txid = some entry → entry.fresh = true) :
    ∃ flushed, flush views.base (views.caches.drop level) = some flushed ∧
      flushed.2.head? = some ∅ ∧
      StandsFor count
        { base := flushed.1, caches := views.caches.take level ++ flushed.2 } flat := by
  have linked := stands.linked
  have answers := stands.answers
  have length := stands.length
  rw [← take_append_drop level views.caches] at linked answers length
  rw [drop_eq_getElem_cons inside] at linked answers length ⊢
  generalize views.caches.drop (level + 1) = below at linked answers length ⊢
  generalize views.caches[level] = cacheCoins at linked answers length ⊢
  generalize views.caches.take level = above at linked answers length fresh ⊢
  rcases flush_spec cacheCoins below (linked_drop above _ linked) with
    ⟨base', below', flushed, lengths, flushedLinked, same⟩
  refine ⟨_, flushed, rfl, ?_⟩
  exact
    { length := by
        rw [← length]
        simp only [length_append, length_cons, lengths]
      linked := by
        apply linked_above above linked flushedLinked
        · exact fun _ _ txid _ => same txid
        · intro cache isLast txid entry looked stale
          rw [fresh cache isLast txid entry looked] at stale
          cases stale
      answers := fun txid => by
        rw [← answers txid]
        exact found_above above (same txid) }

theorem step_standsFor {count : Nat} (views : CoinsViews) (flat : Uint256 → Option CCoins)
    (event : Event) (stands : StandsFor count views flat) (allowed : Disciplined views event) :
    ∃ next, step views event = some next ∧ StandsFor count next (applyEdit flat event) := by
  obtain ⟨level, operation⟩ := event
  cases operation with
  | getCoins txid => exact ⟨_, rfl, read_standsFor stands level txid⟩
  | haveCoins txid => exact ⟨_, rfl, read_standsFor stands level txid⟩
  | accessCoins txid => exact ⟨_, rfl, read_standsFor stands level txid⟩
  | modifyCoins txid edit =>
    exact ⟨_, rfl, modify_standsFor stands level allowed.1 txid edit allowed.2.1 allowed.2.2⟩
  | flush =>
    obtain ⟨flushed, done, _, after⟩ := flush_standsFor stands level allowed.1 allowed.2
    refine ⟨_, ?_, after⟩
    simp only [step, done, map_some]

section Runs

variable (base : CCoinsViewDB)

theorem live_serialised (txid : Uint256) :
    live (base.coins txid) = base.coins txid := by
  cases stored : base.coins txid with
  | none => rfl
  | some coins => exact live_of_unspent (base.serialised txid coins stored).1

theorem found_empty (caches : List CCoinsMap)
    (empty : ∀ cacheCoins ∈ caches, cacheCoins = ∅) (txid : Uint256) :
    found base caches txid = base.coins txid := by
  have through := found_through base caches [] txid fun cacheCoins member => by
    rw [empty cacheCoins member]
    exact AList.lookup_empty txid
  rw [append_nil] at through
  exact through

theorem openCaches_standsFor (count : Nat) :
    StandsFor count (openCaches base count) base.coins where
  length := length_replicate
  linked := by
    unfold openCaches
    induction count with
    | zero => trivial
    | succ count ih =>
      refine ⟨fun txid entry looked => ?_, ih⟩
      rw [AList.lookup_empty] at looked
      cases looked
  answers := fun txid => by
    rw [openCaches, found_empty base _ (fun _ member => eq_of_mem_replicate member)]
    exact live_serialised base txid

def fullFlush (count : Nat) : List Event :=
  (List.range count).map fun level => { level := level, operation := .flush }

theorem fullFlush_empties {count : Nat} {views : CoinsViews} {flat : Uint256 → Option CCoins}
    (stands : StandsFor count views flat) (levels : Nat) (within : levels ≤ count) :
    ∃ flushed, run step views (fullFlush levels) = some flushed ∧
      StandsFor count flushed flat ∧
      ∀ cacheCoins ∈ flushed.caches.take levels, cacheCoins = ∅ := by
  induction levels with
  | zero => exact ⟨views, rfl, stands, fun _ member => by cases member⟩
  | succ level ih =>
    obtain ⟨middle, reached, middleStands, empty⟩ := ih (Nat.le_of_succ_le within)
    have inside : level < middle.caches.length := by
      rw [middleStands.length]
      exact within
    have fresh : ∀ cacheCoins ∈ (middle.caches.take level).getLast?, ∀ txid entry,
        cacheCoins.lookup txid = some entry → entry.fresh = true := by
      intro cacheCoins isLast txid entry looked
      rw [empty cacheCoins (mem_of_getLast? isLast), AList.lookup_empty] at looked
      cases looked
    obtain ⟨flushed, done, top, after⟩ := flush_standsFor middleStands level inside fresh
    refine ⟨_, ?_, after, ?_⟩
    · rw [fullFlush, range_succ, map_append]
      apply run_snoc_some step views middle _ _ _ reached
      simp only [step, done, map_some]
    · intro cacheCoins member
      rw [take_append, length_take_of_le (Nat.le_of_lt inside)] at member
      obtain above | here := mem_append.mp member
      · exact empty cacheCoins (mem_of_mem_take above)
      · rw [Nat.add_sub_cancel_left, take_one, top] at here
        exact mem_singleton.mp here

/-- Every disciplined run goes through, its answers are those of the flat map, and a full flush
leaves the flat map in the database. -/
theorem caches_are_transparent (base : CCoinsViewDB) (count : Nat) (events : List Event)
    (disciplined : AllSteps step Disciplined (openCaches base count) events) :
    ∃ last, run step (openCaches base count) events = some last ∧
      (∀ txid, live (getCoins last.base last.caches txid).1 =
        events.foldl applyEdit base.coins txid) ∧
      (∀ txid, haveCoins last.base last.caches txid =
        (events.foldl applyEdit base.coins txid).isSome) ∧
      ∃ flushed, run step last (fullFlush count) = some flushed ∧
        ∀ txid, flushed.base.coins txid = events.foldl applyEdit base.coins txid := by
  rcases simulation_of_guarded_run step Disciplined applyEdit (StandsFor count)
    step_standsFor _ _ events (openCaches_standsFor base count) disciplined with
    ⟨last, reached, stands⟩
  refine ⟨last, reached, fun txid => ?_, fun txid => ?_, ?_⟩
  · rw [(@getCoins_spec last.base last.caches txid).1]
    exact stands.answers txid
  · rw [haveCoins_spec last.caches stands.linked txid, stands.answers txid]
  · rcases fullFlush_empties stands count (Nat.le_refl count) with
      ⟨flushed, done, flushedStands, empty⟩
    refine ⟨flushed, done, fun txid => ?_⟩
    rw [take_of_length_le (Nat.le_of_eq flushedStands.length)] at empty
    rw [← flushedStands.answers txid, found_empty _ _ empty, live_serialised]

end Runs

def unspentEntry : CCoins where
  fCoinBase := false
  fCoinStake := false
  vout := [{ nValue := coin, scriptPubKey := [] }]
  nHeight := 5
  nVersion := 1

def databaseOf (entry : Option CCoins)
    (serialised : ∀ coins, entry = some coins → coins.isPruned = false ∧ coins.cleanup = coins) :
    CCoinsViewDB where
  coins := fun txid => if txid = 21 then entry else none
  serialised := by
    intro txid coins found
    split at found
    · exact serialised coins found
    · cases found

def emptyDatabase : CCoinsViewDB := databaseOf none fun _ missing => by cases missing

def heldDatabase : CCoinsViewDB :=
  databaseOf (some unspentEntry) fun coins same => by
    cases same
    decide

def modify (edit : CCoins → CCoins) : Event := { level := 0, operation := .modifyCoins 21 edit }

def flushAt (level : Nat) : Event := { level := level, operation := .flush }

/-- All outputs spent, and one put back without touching the rest. -/
def spendAndRestore : List Event :=
  [modify fun coins => { coins with vout := [] },
    modify fun coins => { coins with vout := unspentEntry.vout }]

def applyKeeping (flat : Uint256 → Option CCoins) (event : Event) : Uint256 → Option CCoins :=
  match event.operation with
  | .modifyCoins txid edit => fun other =>
    if other = txid then some (edit ((flat txid).getD CCoins.clear)).cleanup else flat other
  | _ => flat

def answerOf (views : CoinsViews) : Option CCoins := live (getCoins views.base views.caches 21).1

/-- An edit that reads a pruned entry tells where the entry came from, so neither flat map gives its
answers; and a cache that is flushed under another one breaks the assertion. -/
theorem arbitrary_use_is_not_transparent :
    (run step (openCaches heldDatabase 1) spendAndRestore).map answerOf ≠
        some (spendAndRestore.foldl applyEdit heldDatabase.coins 21) ∧
      (run step (openCaches emptyDatabase 1)
          (modify (fun _ => unspentEntry) :: spendAndRestore)).map answerOf ≠
        some (live ((modify (fun _ => unspentEntry) :: spendAndRestore).foldl applyKeeping
          emptyDatabase.coins 21)) ∧
      run step (openCaches heldDatabase 2) [modify id, flushAt 1, flushAt 0] = none := by
  refine ⟨by decide +kernel, by decide +kernel, ?_⟩
  rw [← isNone_iff_eq_none]
  decide +kernel

/-- An entry written at the top and flushed into the database. -/
theorem written_entry_is_transparent :
    ∃ last, run step (openCaches emptyDatabase 1) [modify fun _ => unspentEntry, flushAt 0] =
        some last ∧ answerOf last = some unspentEntry := by
  have disciplined : AllSteps step Disciplined (openCaches emptyDatabase 1)
      [modify fun _ => unspentEntry, flushAt 0] := by
    refine ⟨⟨by decide, fun _ _ => rfl, fun _ member => by cases member⟩, fun next taken => ?_⟩
    cases taken
    exact ⟨⟨by decide, fun _ isLast => by cases isLast⟩, fun _ _ => trivial⟩
  obtain ⟨last, reached, answers, _⟩ := caches_are_transparent emptyDatabase 1 _ disciplined
  refine ⟨last, reached, ?_⟩
  rw [answerOf, answers 21]
  decide +kernel

end ZenonCore.CacheTransparency
