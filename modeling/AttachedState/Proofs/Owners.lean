import AttachedState.Proofs.Turnover

/-!
Owners and registrations.  A registration has an owner as long as nobody failed to give it up; from
then on only the journal tells who owned it.  Owners and former owners together stand one to one for
the registrations there are.
-/

namespace AttachedState

-- The owner that an event tells to have left its registration behind.
def Event.orphan? : Event → Option Guard
  | stateOrphaned r entry b h => some ⟨r, entry, h, b⟩
  | _ => none

theorem Event.orphan?_eq_some {e : Event} {g : Guard} :
    e.orphan? = some g ↔ e = .stateOrphaned g.registry g.entry g.block g.handle := by
  cases e with
  | stateOrphaned r entry b h =>
    simp only [orphan?, Option.some.injEq, stateOrphaned.injEq]
    constructor
    · rintro rfl
      exact ⟨rfl, rfl, rfl, rfl⟩
    · rintro ⟨rfl, rfl, rfl, rfl⟩
      rfl
  | _ => simp [orphan?]

namespace World

-- The owners that left their registrations behind, the latest first.
def orphans (w : World) : List Guard := w.journal.filterMap Event.orphan?

theorem mem_orphans {w : World} {g : Guard} :
    g ∈ w.orphans ↔ .stateOrphaned g.registry g.entry g.block g.handle ∈ w.journal := by
  simp only [orphans, List.mem_filterMap, Event.orphan?_eq_some]
  constructor
  · rintro ⟨e, listed, rfl⟩
    exact listed
  · intro listed
    exact ⟨_, listed, rfl⟩

theorem orphans_of_told {w after : World} (told : List Event)
    (journal : after.journal = told ++ w.journal) (silent : ∀ e ∈ told, e.orphan? = none) :
    after.orphans = w.orphans := by
  unfold orphans
  rw [journal, List.filterMap_append, List.filterMap_eq_nil_iff.mpr silent, List.nil_append]

end World

namespace Scene

-- Whoever owns a registration or left one behind.
def claims (s : Scene) : List Guard := s.guards ++ s.world.orphans

theorem Numbered.claims {s : Scene} (numbered : s.Numbered) {g : Guard} (claims : g ∈ s.claims) :
    g.registry.number < s.world.next := by
  rcases List.mem_append.mp claims with owns | owned
  · exact (numbered.guards g owns).1
  · exact numbered.journal _ (World.mem_orphans.mp owned) _ (by simp [Event.numbers])

structure Owned (s : Scene) : Prop where
  valid : ∀ r contexts, s.world.map? r = some contexts → contexts.Valid
  once : (s.claims.map (·.block)).Nodup
  born : ∀ g ∈ s.claims, g.block ∈ s.world.births
  live : ∀ g ∈ s.guards, ∃ contexts, s.world.map? g.registry = some contexts
  kept : ∀ g ∈ s.claims, ∀ contexts, s.world.map? g.registry = some contexts →
    contexts.entry? g.entry = some (g.handle, g.block)
  claimed : ∀ r contexts entry h b, s.world.map? r = some contexts →
    contexts.entry? entry = some (h, b) → ⟨r, entry, h, b⟩ ∈ s.claims
  counted : ∀ r contexts, s.world.map? r = some contexts →
    contexts.size = s.claims.countP (·.registry = r)
  removed : ∀ r entry b h scrubbed, .stateRemoved r entry b h scrubbed ∈ s.world.journal →
    b ∈ s.world.births ∧ ∀ g ∈ s.claims, g.block ≠ b

theorem owned_start (hashing : RegistryId → Handle → UInt64) : (start hashing).Owned := by
  have empty : ∀ r contexts, (start hashing).world.map? r = some contexts →
      contexts = .empty (hashing globalRegistry) := by
    intro r contexts found
    simp only [start, World.start, World.map?, Table.find?_put, Table.find?_empty] at found
    split at found <;> cases found
    rfl
  refine ⟨?_, List.nodup_nil, List.forall_mem_nil _, List.forall_mem_nil _, List.forall_mem_nil _,
    ?_, ?_, ?_⟩
  · intro r contexts found
    rw [empty r contexts found]
    exact HandleMap.valid_empty _
  · intro r contexts entry h b found there
    rw [empty r contexts found, HandleMap.entry?_empty] at there
    cases there
  · intro r contexts found
    rw [empty r contexts found]
    rfl
  · intro r entry b h scrubbed told
    cases told

namespace Owned

variable {s s' : Scene}

-- Nothing is lost when owners change hands or leave their registrations behind.
theorem of_claims (owned : s.Owned) (maps : ∀ r, s'.world.map? r = s.world.map? r)
    (claims : s'.claims.Perm s.claims) (guards : ∀ g ∈ s'.guards, g ∈ s.guards)
    (births : s'.world.births = s.world.births)
    (removed : ∀ r entry b h scrubbed, .stateRemoved r entry b h scrubbed ∈ s'.world.journal →
      .stateRemoved r entry b h scrubbed ∈ s.world.journal) : s'.Owned := by
  refine ⟨?_, ?_, ?_, ?_, ?_, ?_, ?_, ?_⟩
  · intro r contexts found
    exact owned.valid r contexts (maps r ▸ found)
  · exact (claims.map _).nodup_iff.mpr owned.once
  · intro g listed
    rw [births]
    exact owned.born g (claims.mem_iff.mp listed)
  · intro g listed
    rw [maps]
    exact owned.live g (guards g listed)
  · intro g listed contexts found
    exact owned.kept g (claims.mem_iff.mp listed) contexts (maps _ ▸ found)
  · intro r contexts entry h b found there
    exact claims.mem_iff.mpr (owned.claimed r contexts entry h b (maps r ▸ found) there)
  · intro r contexts found
    rw [claims.countP_eq]
    exact owned.counted r contexts (maps r ▸ found)
  · intro r entry b h scrubbed told
    obtain ⟨born, unclaimed⟩ := owned.removed r entry b h scrubbed (removed _ _ _ _ _ told)
    exact ⟨births ▸ born, fun g listed => unclaimed g (claims.mem_iff.mp listed)⟩

-- The contexts of one registry change: whoever has a claim elsewhere keeps it.
theorem replaced (owned : s.Owned) {r : RegistryId} {now : HandleMap BlockId}
    (maps : ∀ other, s'.world.map? other = if other = r then some now else s.world.map? other)
    (elsewhere : (s'.claims.filter (·.registry ≠ r)).Perm (s.claims.filter (·.registry ≠ r)))
    (guards : ∀ g ∈ s'.guards, g.registry = r ∨ g ∈ s.guards) (valid : now.Valid)
    (once : (s'.claims.map (·.block)).Nodup) (born : ∀ g ∈ s'.claims, g.block ∈ s'.world.births)
    (kept : ∀ g ∈ s'.claims, g.registry = r → now.entry? g.entry = some (g.handle, g.block))
    (claimed : ∀ entry h b, now.entry? entry = some (h, b) → ⟨r, entry, h, b⟩ ∈ s'.claims)
    (counted : now.size = s'.claims.countP (·.registry = r))
    (removed : ∀ r entry b h scrubbed, .stateRemoved r entry b h scrubbed ∈ s'.world.journal →
      b ∈ s'.world.births ∧ ∀ g ∈ s'.claims, g.block ≠ b) : s'.Owned := by
  have same : ∀ {g : Guard}, g.registry ≠ r → (g ∈ s'.claims ↔ g ∈ s.claims) := by
    intro g apart
    have both := elsewhere.mem_iff (a := g)
    simpa only [List.mem_filter, decide_eq_true apart, and_true] using both
  have count : ∀ {other : RegistryId}, other ≠ r →
      s'.claims.countP (·.registry = other) = s.claims.countP (·.registry = other) := by
    intro other apart
    have within : ∀ claims : List Guard, claims.countP (·.registry = other)
        = (claims.filter (·.registry ≠ r)).countP (·.registry = other) := by
      intro claims
      rw [List.countP_filter]
      refine List.countP_congr fun g _ => ?_
      simp only [Bool.and_eq_true, decide_eq_true_eq]
      exact ⟨fun there => ⟨there, there ▸ apart⟩, And.left⟩
    rw [within s'.claims, within s.claims, elsewhere.countP_eq]
  refine ⟨?_, once, born, ?_, ?_, ?_, ?_, removed⟩
  · intro other contexts found
    rw [maps] at found
    split at found
    · cases found
      exact valid
    · exact owned.valid other contexts found
  · intro g listed
    rw [maps]
    split
    · exact ⟨now, rfl⟩
    · rename_i apart
      exact owned.live g ((guards g listed).resolve_left apart)
  · intro g listed contexts found
    rw [maps] at found
    split at found
    · rename_i here
      cases found
      exact kept g listed here
    · rename_i apart
      exact owned.kept g ((same apart).mp listed) contexts found
  · intro other contexts entry h b found there
    rw [maps] at found
    split at found
    · rename_i here
      cases found
      exact here ▸ claimed entry h b there
    · rename_i apart
      exact (same apart).mpr (owned.claimed other contexts entry h b found there)
  · intro other contexts found
    rw [maps] at found
    split at found
    · rename_i here
      cases found
      exact here ▸ counted
    · rename_i apart
      rw [count apart]
      exact owned.counted other contexts found

theorem opened (owned : s.Owned) (numbered : s.Numbered) {r : RegistryId} {hash : Handle → UInt64}
    (fresh : r = ⟨s.world.next⟩) (maps : ∀ other, s'.world.map? other
      = if other = r then some (.empty hash) else s.world.map? other)
    (guards : s'.guards = s.guards) (journal : s'.world.journal = s.world.journal) : s'.Owned := by
  have claims : s'.claims = s.claims := by
    unfold Scene.claims World.orphans
    rw [guards, journal]
  have births : s'.world.births = s.world.births := by rw [World.births, journal, World.births]
  have apart : ∀ g ∈ s.claims, g.registry ≠ r := by
    intro g listed same
    have old := numbered.claims listed
    rw [same, fresh] at old
    exact Nat.lt_irrefl _ old
  have nobody : s.claims.countP (·.registry = r) = 0 :=
    List.countP_eq_zero.mpr fun g listed same => apart g listed (of_decide_eq_true same)
  refine owned.replaced maps (by rw [claims]) (fun g listed => .inr (guards ▸ listed))
    (HandleMap.valid_empty _) (claims ▸ owned.once) ?_ ?_ ?_ ?_ ?_
  · rw [claims, births]
    exact owned.born
  · intro g listed same
    exact absurd same (apart g (claims ▸ listed))
  · intro entry h b there
    rw [HandleMap.entry?_empty] at there
    cases there
  · rw [claims, nobody]
    rfl
  · rw [claims, births, journal]
    exact owned.removed

theorem closed (owned : s.Owned) {r : RegistryId} (unowned : ∀ g ∈ s.guards, g.registry ≠ r)
    (maps : ∀ other, s'.world.map? other = if other = r then none else s.world.map? other)
    (guards : s'.guards = s.guards) (journal : s'.world.journal = s.world.journal) : s'.Owned := by
  have claims : s'.claims = s.claims := by
    unfold Scene.claims World.orphans
    rw [guards, journal]
  have births : s'.world.births = s.world.births := by rw [World.births, journal, World.births]
  have before : ∀ {other : RegistryId} {contexts : HandleMap BlockId},
      s'.world.map? other = some contexts → s.world.map? other = some contexts := by
    intro other contexts found
    rw [maps] at found
    split at found
    · cases found
    · exact found
  refine ⟨?_, ?_, ?_, ?_, ?_, ?_, ?_, ?_⟩
  · exact fun other contexts found => owned.valid other contexts (before found)
  · exact claims ▸ owned.once
  · rw [claims, births]
    exact owned.born
  · intro g listed
    rw [guards] at listed
    rw [maps, if_neg (unowned g listed)]
    exact owned.live g listed
  · rw [claims]
    exact fun g listed contexts found => owned.kept g listed contexts (before found)
  · rw [claims]
    exact fun other contexts entry h b found => owned.claimed other contexts entry h b (before found)
  · rw [claims]
    exact fun other contexts found => owned.counted other contexts (before found)
  · rw [claims, births, journal]
    exact owned.removed

theorem enrolled (owned : s.Owned) {g : Guard} {slots : Nat} {contexts grown : HandleMap BlockId}
    (new : g.block ∉ s.world.births) (live : s.world.map? g.registry = some contexts)
    (inserted : contexts.insert g.handle g.block = .ok (g.entry, grown))
    (maps : ∀ other, s'.world.map? other
      = if other = g.registry then some grown else s.world.map? other)
    (guards : s'.guards.Perm (g :: s.guards))
    (journal : s'.world.journal
      = .stateCreated g.registry g.entry g.block g.handle slots :: s.world.journal) : s'.Owned := by
  have valid := owned.valid _ _ live
  have entries := HandleMap.entry?_insert valid inserted
  have claims : s'.claims.Perm (g :: s.claims) := by
    have orphans : s'.world.orphans = s.world.orphans :=
      World.orphans_of_told [_] journal (by simp [Event.orphan?])
    unfold Scene.claims
    rw [orphans]
    exact guards.append_right _
  have births : s'.world.births = g.block :: s.world.births := by rw [World.births, journal]; rfl
  have owns : ∀ {other : Guard}, other ∈ s'.claims → other = g ∨ other ∈ s.claims :=
    fun listed => List.mem_cons.mp (claims.mem_iff.mp listed)
  refine owned.replaced maps ?_ ?_ (HandleMap.valid_insert valid inserted) ?_ ?_ ?_ ?_ ?_ ?_
  · have filtered := claims.filter (·.registry ≠ g.registry)
    rwa [List.filter_cons_of_neg (by simp)] at filtered
  · intro other listed
    rcases List.mem_cons.mp (guards.mem_iff.mp listed) with rfl | old
    · exact .inl rfl
    · exact .inr old
  · refine (claims.map _).nodup_iff.mpr (List.nodup_cons.mpr ⟨?_, owned.once⟩)
    intro listed
    obtain ⟨other, claims, same⟩ := List.mem_map.mp listed
    simp only at same
    exact new (same ▸ owned.born other claims)
  · intro other listed
    rw [births]
    rcases owns listed with rfl | old
    · exact List.mem_cons_self
    · exact List.mem_cons_of_mem _ (owned.born other old)
  · intro other listed here
    rw [entries]
    rcases owns listed with rfl | old
    · exact if_pos rfl
    · have before := owned.kept other old contexts (here ▸ live)
      rw [if_neg]
      · exact before
      · intro same
        rw [same, HandleMap.entry?_fresh valid inserted] at before
        cases before
  · intro entry h b there
    apply claims.mem_iff.mpr
    rw [entries] at there
    split at there
    · rename_i same
      cases there
      rw [same]
      exact List.mem_cons_self
    · exact List.mem_cons_of_mem _ (owned.claimed g.registry contexts entry h b live there)
  · rw [claims.countP_eq, List.countP_cons, HandleMap.size_insert valid inserted,
      owned.counted _ contexts live, if_pos (decide_eq_true rfl)]
  · intro r entry b h scrubbed told
    rw [journal] at told
    rcases List.mem_cons.mp told with now | earlier
    · cases now
    · obtain ⟨born, unclaimed⟩ := owned.removed r entry b h scrubbed earlier
      refine ⟨births ▸ List.mem_cons_of_mem _ born, fun other listed => ?_⟩
      rcases owns listed with rfl | old
      · intro same
        exact new (same ▸ born)
      · exact unclaimed other old

theorem withdrawn (owned : s.Owned) {g : Guard} {scrubbed : Nat} {contexts left : HandleMap BlockId}
    (live : s.world.map? g.registry = some contexts)
    (removed : contexts.remove? g.entry = some ((g.handle, g.block), left))
    (maps : ∀ other, s'.world.map? other
      = if other = g.registry then some left else s.world.map? other)
    (guards : s.guards.Perm (g :: s'.guards))
    (journal : s'.world.journal
      = .stateRemoved g.registry g.entry g.block g.handle scrubbed :: s.world.journal) :
    s'.Owned := by
  have valid := owned.valid _ _ live
  have entries := HandleMap.entry?_remove removed
  have claims : s.claims.Perm (g :: s'.claims) := by
    have orphans : s'.world.orphans = s.world.orphans :=
      World.orphans_of_told [_] journal (by simp [Event.orphan?])
    unfold Scene.claims
    rw [orphans]
    exact guards.append_right _
  have births : s'.world.births = s.world.births := by rw [World.births, journal]; rfl
  have once := (claims.map (·.block)).nodup_iff.mp owned.once
  rw [List.map_cons, List.nodup_cons] at once
  have before : ∀ {other : Guard}, other ∈ s'.claims → other ∈ s.claims :=
    fun listed => claims.mem_iff.mpr (List.mem_cons_of_mem _ listed)
  have apart : ∀ other ∈ s'.claims, other.block ≠ g.block := by
    intro other listed same
    exact once.1 (same ▸ List.mem_map_of_mem (f := (·.block)) listed)
  refine owned.replaced maps ?_ (fun other listed => .inr ?_) (HandleMap.valid_remove valid removed)
    once.2 ?_ ?_ ?_ ?_ ?_
  · have filtered := claims.filter (·.registry ≠ g.registry)
    rw [List.filter_cons_of_neg (by simp)] at filtered
    exact filtered.symm
  · exact guards.mem_iff.mpr (List.mem_cons_of_mem _ listed)
  · intro other listed
    rw [births]
    exact owned.born other (before listed)
  · intro other listed here
    have was := owned.kept other (before listed) contexts (here ▸ live)
    rw [entries, if_neg]
    · exact was
    · intro same
      rw [same, HandleMap.entry?_of_remove? removed, Option.some.injEq, Prod.mk.injEq] at was
      exact apart other listed was.2.symm
  · intro entry h b there
    rw [entries] at there
    split at there
    · cases there
    · rename_i different
      have claimed := owned.claimed g.registry contexts entry h b live there
      refine (List.mem_cons.mp (claims.mem_iff.mp claimed)).resolve_left fun same => ?_
      exact different (congrArg Guard.entry same)
  · have count := claims.countP_eq (fun other => decide (other.registry = g.registry))
    have size := HandleMap.size_remove removed
    rw [List.countP_cons, if_pos (decide_eq_true rfl)] at count
    rw [owned.counted _ contexts live, count] at size
    exact Nat.add_right_cancel size
  · intro r entry b h count told
    rw [journal] at told
    rw [births]
    rcases List.mem_cons.mp told with now | earlier
    · cases now
      exact ⟨owned.born g (claims.mem_iff.mpr List.mem_cons_self), apart⟩
    · obtain ⟨born, unclaimed⟩ := owned.removed r entry b h count earlier
      exact ⟨born, fun other listed => unclaimed other (before listed)⟩

-- What was left behind belongs to nobody.
theorem unowned (owned : s.Owned) {g other : Guard} (orphan : g ∈ s.world.orphans)
    (owns : other ∈ s.guards) : other.block ≠ g.block := by
  have once := owned.once
  rw [Scene.claims, List.map_append] at once
  exact (List.nodup_append.mp once).2.2 _ (List.mem_map_of_mem owns) _ (List.mem_map_of_mem orphan)

-- Two that claim different blocks of one registry claim different entries and different handles.
theorem apart (owned : s.Owned) {g other : Guard} (claims : g ∈ s.claims) (claimsToo : other ∈ s.claims)
    (different : g.block ≠ other.block) (same : g.registry = other.registry)
    {contexts : HandleMap BlockId} (live : s.world.map? g.registry = some contexts) :
    g.entry ≠ other.entry ∧ g.handle ≠ other.handle := by
  have there := owned.kept g claims contexts live
  have thereToo := owned.kept other claimsToo contexts (same ▸ live)
  have entries : g.entry ≠ other.entry := by
    intro equal
    rw [equal, thereToo] at there
    exact different (congrArg Prod.snd (Option.some.inj there)).symm
  refine ⟨entries, fun equal => entries ?_⟩
  rw [equal] at there
  exact HandleMap.entry?_unique (owned.valid _ _ live) there thereToo

end Owned

-- What owners and registrations are to each other is kept by every move.
theorem Arises.owned {hashing : RegistryId → Handle → UInt64} {s : Scene}
    (arisen : Arises hashing s) : s.Owned := by
  induction arisen with
  | refl => exact owned_start hashing
  | @tail s s' before move ih =>
    have nodup := Arises.blocksNamed_nodup before
    cases move.shift (Arises.tidy before) with
    | kept told maps guards journal silent =>
      have told_none : ∀ e ∈ told, e.orphan? = none ∧ e.born? = none := by
        intro e listed
        have quiet := silent e listed
        cases e <;> first | exact ⟨rfl, rfl⟩ | cases quiet
      have orphans : s'.world.orphans = s.world.orphans :=
        World.orphans_of_told _ journal fun e listed => (told_none e listed).1
      refine ih.of_claims maps ?_ (fun g listed => guards.mem_iff.mp listed) ?_ ?_
      · unfold Scene.claims
        rw [orphans]
        exact guards.append_right _
      · unfold World.births
        rw [journal, List.filterMap_append,
          List.filterMap_eq_nil_iff.mpr fun e listed => (told_none e listed).2, List.nil_append]
      · intro r entry b h scrubbed listed
        rw [journal] at listed
        rcases List.mem_append.mp listed with now | earlier
        · cases silent _ now
        · exact earlier
    | opened r hash fresh maps guards journal =>
      exact ih.opened (Arises.numbered before) fresh maps guards journal
    | closed r unowned maps guards journal => exact ih.closed unowned maps guards journal
    | enrolled g slots contexts grown live inserted building maps guards journal =>
      refine ih.enrolled ?_ live inserted maps guards journal
      intro born
      unfold Scene.blocksNamed at nodup
      rw [building, List.cons_append, List.nodup_cons] at nodup
      exact nodup.1 (List.mem_append_right _ born)
    | withdrawn g scrubbed contexts left live removed maps guards journal =>
      exact ih.withdrawn live removed maps guards journal
    | orphaned g maps guards journal =>
      have orphans : s'.world.orphans = g :: s.world.orphans := by
        unfold World.orphans
        rw [journal]
        rfl
      refine ih.of_claims maps ?_ (fun other listed => ?_) ?_ ?_
      · unfold Scene.claims
        rw [orphans]
        exact List.perm_middle.trans (guards.symm.append_right _)
      · exact guards.mem_iff.mpr (List.mem_cons_of_mem _ listed)
      · rw [World.births, journal]
        rfl
      · intro r entry b h scrubbed listed
        rw [journal] at listed
        rcases List.mem_cons.mp listed with now | earlier
        · cases now
        · exact earlier

-- Whoever owned a registration owns it still, has left it behind, or has removed it.
theorem claims_shift {s s' : Scene} (shift : Shift s s') {g : Guard} (claims : g ∈ s.claims) :
    g ∈ s'.claims ∨ ∃ scrubbed,
      .stateRemoved g.registry g.entry g.block g.handle scrubbed ∈ s'.world.journal := by
  rcases List.mem_append.mp claims with owns | orphan
  · cases shift with
    | kept told maps guards => exact .inl (List.mem_append_left _ (guards.mem_iff.mpr owns))
    | opened r hash fresh maps guards | closed r unowned maps guards =>
      exact .inl (List.mem_append_left _ (guards ▸ owns))
    | enrolled new slots contexts grown live inserted building maps guards =>
      exact .inl (List.mem_append_left _ (guards.mem_iff.mpr (.tail _ owns)))
    | withdrawn gone scrubbed contexts left live removed maps guards journal =>
      rcases List.mem_cons.mp (guards.mem_iff.mp owns) with rfl | stays
      · exact .inr ⟨scrubbed, by rw [journal]; exact .head _⟩
      · exact .inl (List.mem_append_left _ stays)
    | orphaned gone maps guards journal =>
      rcases List.mem_cons.mp (guards.mem_iff.mp owns) with rfl | stays
      · refine .inl (List.mem_append_right _ (World.mem_orphans.mpr ?_))
        rw [journal]
        exact .head _
      · exact .inl (List.mem_append_left _ stays)
  · have told := World.mem_orphans.mp orphan
    exact .inl (List.mem_append_right _ (World.mem_orphans.mpr (shift.still told)))

theorem claims_created {s s' : Scene} (shift : Shift s s') {r : RegistryId} {entry : Ticket}
    {b : BlockId} {h : Handle} {slots : Nat}
    (told : .stateCreated r entry b h slots ∈ s'.world.journal) :
    .stateCreated r entry b h slots ∈ s.world.journal ∨ ⟨r, entry, h, b⟩ ∈ s'.claims := by
  cases shift with
  | kept news maps guards journal silent =>
    rw [journal] at told
    rcases List.mem_append.mp told with new | old
    · cases silent _ new
    · exact .inl old
  | opened r' hash fresh maps guards journal | closed r' unowned maps guards journal =>
    exact .inl (journal ▸ told)
  | enrolled g slots' contexts grown live inserted building maps guards journal =>
    rw [journal] at told
    rcases List.mem_cons.mp told with new | old
    · cases new
      exact .inr (List.mem_append_left _ (guards.mem_iff.mpr (.head _)))
    · exact .inl old
  | withdrawn g scrubbed contexts left live removed maps guards journal
  | orphaned g maps guards journal =>
    rw [journal] at told
    rcases List.mem_cons.mp told with new | old
    · cases new
    · exact .inl old

-- What became of a state that was created.
theorem Arises.fate {hashing : RegistryId → Handle → UInt64} {s : Scene} (arisen : Arises hashing s)
    {r : RegistryId} {entry : Ticket} {b : BlockId} {h : Handle} {slots : Nat}
    (told : .stateCreated r entry b h slots ∈ s.world.journal) :
    (∃ scrubbed, .stateRemoved r entry b h scrubbed ∈ s.world.journal) ∨
      ⟨r, entry, h, b⟩ ∈ s.claims := by
  induction arisen with
  | refl => cases told
  | @tail s s' before move ih =>
    have shift := move.shift (Arises.tidy before)
    rcases claims_created shift told with old | now
    · rcases ih old with ⟨scrubbed, removed⟩ | claims
      · exact .inl ⟨scrubbed, shift.still removed⟩
      · rcases claims_shift shift claims with stays | removed
        · exact .inr stays
        · exact .inl removed
    · exact .inr now

end Scene

end AttachedState
