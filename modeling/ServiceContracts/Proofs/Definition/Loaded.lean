import ServiceContracts.Proofs.Definition.Loading
/-!
# What a load gives

A load that succeeds has read the documents plainly
(`Loader.build_meaning`). The table it ends with, in which every type is
built once, holds for each declared type the schema that the plain
reading builds, with every reference expanded again. And the registry has
the services of the documents, one for each, in document order.
-/


namespace ServiceContracts.Definition

variable {decls : Declarations}

/-! ## The table -/

/-- Names that have been resolved are all in the table. -/
theorem subset_keys_of_resolveAll {names : List String} {built built' : Built}
    (hbuilt : Sound decls built) (h : (resolveAll decls names).run built = .ok ((), built')) :
    names ⊆ Entries.keys built' := by
  induction names generalizing built with
  | nil => exact List.nil_subset _
  | cons name rest ih =>
    rw [resolveAll] at h
    obtain ⟨schema, next, hname, hrest⟩ := exists_of_run_bind h
    have hresolve : Computes decls (resolve decls [] name) (Expands decls name) :=
      resolve_computes (.nil name)
    obtain ⟨-, -, hnext⟩ := Decides.of_run_eq_ok hresolve hbuilt hname
    obtain ⟨-, -, hlater⟩ := (resolveAll_decides rest).of_run_eq_ok hnext.sound hrest
    -- what the first name has put into the table stays there
    exact List.cons_subset.mpr ⟨hlater.kept (mem_keys_of_resolve hname), ih hnext.sound hrest⟩

/-- **A table without gaps is the plain reading**, at every name: what it has
is what the name stands for, and what it has not is not declared. -/
theorem Sound.get?_eq_expand {built : Built} (hsound : Sound decls built)
    (hkeys : Entries.keys decls ⊆ Entries.keys built) (name : String) :
    Entries.get? built name = expand decls name := by
  cases hfound : Entries.get? built name with
  | some schema => exact (hsound name schema hfound).expand_eq.symm
  | none =>
    cases hexpand : expand decls name with
    | none => rfl
    | some schema =>
      have hdeclared := (Expands.of_expandTo hexpand).declared
      exact absurd (hkeys hdeclared) (Entries.get?_eq_none_iff.mp hfound)

/-! ## The load -/

/-- A load that gives a registry has resolved all types before it made the
services. -/
theorem exists_of_buildRegistry {sources : List Source} {r : Registry}
    (h : buildRegistry sources = .ok r) : ∃ table built,
      load sources = .ok (r, table) ∧
      (resolveAll (declarations sources) (Entries.keys (declarations sources))).run [] =
        .ok ((), built) ∧
      (addServices (declarations sources) (resolve (declarations sources) []) Registry.empty
        (services sources)).run built =
        .ok (r, table) := by
  have hload := load_eq (nodup_of_buildRegistry_eq_ok h)
  rw [buildRegistry] at h
  cases hresult : load sources with
  | error e =>
    rw [hresult] at h
    cases h
  | ok p =>
    obtain ⟨r', table⟩ := p
    rw [hresult] at h
    obtain rfl : r' = r := Except.ok.inj h
    obtain ⟨⟨⟩, built, hresolve, hservices⟩ := exists_of_run_bind (hload.symm.trans hresult)
    exact ⟨table, built, rfl, hresolve, hservices⟩

/-- Its table is the plain reading of the types. -/
theorem exists_table_of_buildRegistry {sources : List Source} {r : Registry}
    (h : buildRegistry sources = .ok r) : ∃ table, load sources = .ok (r, table) ∧
      ∀ name, Entries.get? table name = expand (declarations sources) name := by
  obtain ⟨table, built, hload, hresolve, hservices⟩ := exists_of_buildRegistry h
  have hnil := Sound.nil (declarations sources)
  obtain ⟨-, hall, hbuilt⟩ := (resolveAll_decides _).of_run_eq_ok hnil hresolve
  obtain ⟨-, -, htable⟩ :=
    (addServices_decides hall Registry.empty rfl _).of_run_eq_ok hbuilt.sound hservices
  have hkeys := List.Subset.trans (subset_keys_of_resolveAll hnil hresolve) htable.kept
  exact ⟨table, hload, htable.sound.get?_eq_expand hkeys⟩

/-- **When a load succeeds**, with no mention of the order of work. -/
theorem exists_buildRegistry_iff {sources : List Source} :
    (∃ r, buildRegistry sources = .ok r) ↔
      (Entries.keys (declarations sources)).Nodup ∧
      (∀ name ∈ Entries.keys (declarations sources),
        ∃ schema, Expands (declarations sources) name schema) ∧
      (∀ d ∈ services sources, d.WellFormed (declarations sources)) ∧
      ((services sources).map ServiceDefinition.serviceName).Nodup := by
  -- the load starts from an empty table, which is sound
  have hverdict := build_decides (services sources) [] (Sound.nil (declarations sources))
  constructor
  · rintro ⟨r, hr⟩
    have hnodup := nodup_of_buildRegistry_eq_ok hr
    rw [buildRegistry_eq hnodup] at hr
    refine ⟨hnodup, ?_⟩
    generalize StateT.run _ _ = result at hverdict hr
    cases hverdict with
    | accepted hc => exact hc
    | refused => cases hr
  · rintro ⟨hnodup, hc⟩
    rw [buildRegistry_eq hnodup]
    generalize StateT.run _ _ = result at hverdict ⊢
    cases hverdict with
    | accepted => exact ⟨_, rfl⟩
    | refused hrefused => exact absurd hc hrefused

/-- **And what it gives then.** -/
theorem describes_of_buildRegistry {sources : List Source} {r : Registry}
    (h : buildRegistry sources = .ok r) :
    List.Forall₂ (ServiceDefinition.Describes (declarations sources)) (services sources)
      r.services ∧ r.Indexed ∧ r.isSealed = false := by
  obtain ⟨table, built, -, hresolve, hservices⟩ := exists_of_buildRegistry h
  obtain ⟨-, hall, hbuilt⟩ := (resolveAll_decides _).of_run_eq_ok (Sound.nil _) hresolve
  obtain ⟨-, ⟨added, hadded, hr⟩, -⟩ :=
    (addServices_decides hall Registry.empty rfl _).of_run_eq_ok hbuilt.sound hservices
  obtain rfl : r.services = added := hr.services
  exact ⟨hadded, (hr.built .empty).indexed, hr.isSealed⟩

/-- **A load gives what its documents say.** Its table is the plain reading
of their types, and there is one for each of them; its services are those
of the documents, in order and under their names, as they say; and more
can be added. -/
theorem Loader.build_meaning {l : Loader} {r : Registry} (h : l.build = .ok r) :
    (∃ table, load l.sources = .ok (r, table) ∧
      (∀ depth, (declarations l.sources).length ≤ depth → ∀ name,
        Entries.get? table name = expandTo (declarations l.sources) depth name) ∧
      ∀ name ∈ Entries.keys (declarations l.sources), ∃ schema expanded,
        Entries.get? table name = some schema ∧
        expand (declarations l.sources) name = some expanded ∧
        schema = expanded ∧ schema.same expanded = true) ∧
    List.Forall₂ (ServiceDefinition.Describes (declarations l.sources)) (services l.sources)
      r.services ∧
    (∀ d ∈ services l.sources, ∃ s, r.service? d.serviceName = some s ∧
      d.Describes (declarations l.sources) s) ∧
    r.Indexed ∧ r.isSealed = false := by
  obtain ⟨table, built, hload, hresolve, hservices⟩ := exists_of_buildRegistry h
  have hnil := Sound.nil (declarations l.sources)
  obtain ⟨-, hall, hbuilt⟩ := (resolveAll_decides _).of_run_eq_ok hnil hresolve
  obtain ⟨-, ⟨added, hadded, hr⟩, htable⟩ :=
    (addServices_decides hall Registry.empty rfl _).of_run_eq_ok hbuilt.sound hservices
  obtain rfl : r.services = added := hr.services
  have hindexed := (hr.built .empty).indexed
  have hexpand : ∀ name, Entries.get? table name = expand (declarations l.sources) name :=
    htable.sound.get?_eq_expand
      (List.Subset.trans (subset_keys_of_resolveAll hnil hresolve) htable.kept)
  refine ⟨⟨table, hload, fun depth hdepth name => ?_, fun name hname => ?_⟩, hadded,
    fun d hd => ?_, hindexed, hr.isSealed⟩
  · rw [hexpand, expandTo_eq_expand hdepth]
  · obtain ⟨schema, hschema⟩ := hall name hname
    have hplain := hschema.expand_eq
    exact ⟨schema, schema, (hexpand name).trans hplain, hplain, rfl, hschema.built.same_self⟩
  · obtain ⟨s, hs, hdescribes⟩ := exists_of_forall₂_left hadded hd
    exact ⟨s, hindexed.service?_eq_some_iff.mpr ⟨hs, hdescribes.name⟩, hdescribes⟩

/-- The sample loads, with nothing refused on the way. -/
theorem Sample.exists_load : ∃ r, buildRegistry loader.sources = .ok r := by
  have hall : ∀ name ∈ Entries.keys (declarations loader.sources),
      (expand (declarations loader.sources) name).isSome = true := by
    decide +kernel
  refine exists_buildRegistry_iff.mpr ⟨by decide, fun name hname => ?_, wellFormed.services,
    wellFormed.serviceNames⟩
  obtain ⟨schema, hschema⟩ := Option.isSome_iff_exists.mp (hall name hname)
  exact ⟨schema, Expands.of_expandTo hschema⟩

/-- The sample, in which routes and the service refer to the same stops. -/
theorem Loader.build_meaning_sample : ∃ r table s, Sample.loader.build = .ok r ∧
    load Sample.loader.sources = .ok (r, table) ∧
    Entries.get? table "Route" = expandTo (declarations Sample.loader.sources) 2 "Route" ∧
    r.service? "Transit" = some s ∧ s.operations.map Operation.wire = ["Route.Start"] ∧
    r.isSealed = false := by
  have hbuild : ∃ r, Sample.loader.build = .ok r := by
    have hverdict := build_decides (services Sample.loader.sources) []
      (Sound.nil (declarations Sample.loader.sources))
    have hnodup : (Entries.keys (declarations Sample.loader.sources)).Nodup := by decide
    rw [Loader.build, buildRegistry_eq hnodup]
    generalize StateT.run _ _ = result at hverdict ⊢
    cases hverdict with
    | accepted _ => exact ⟨_, rfl⟩
    | refused hc =>
      have hproperties : ∀ name d, Entries.get? (declarations Sample.loader.sources) name = some d →
          (Entries.keys d.properties).Nodup := by
        intro name d hd
        obtain ⟨rfl, rfl⟩ | ⟨rfl, rfl⟩ := Sample.declared_cases hd <;> decide
      exact absurd ⟨(typesWellFormed_iff hproperties).mp Sample.wellFormed.types,
        Sample.wellFormed.services, Sample.wellFormed.serviceNames⟩ hc
  obtain ⟨r, hr⟩ := hbuild
  obtain ⟨⟨table, hload, htable, -⟩, -, hservices, -, hopen⟩ := Loader.build_meaning hr
  obtain ⟨s, hs, hdescribes⟩ := hservices _ (List.mem_singleton.mpr rfl)
  refine ⟨r, table, s, hr, hload, htable 2 (by decide) "Route", hs, ?_, hopen⟩
  exact map_eq_of_forall₂ hdescribes.operations fun _ _ hop => hop.wire

end ServiceContracts.Definition
