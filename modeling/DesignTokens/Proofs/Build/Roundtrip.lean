import DesignTokens.Proofs.Build.Overwriting
import DesignTokens.Proofs.Theme.Published

/-!
What a build writes is loaded back as what it assembled. Plans that are put together job by job name
every theme once, so no file is written over another, and the manifest lists the themes in order.
-/

namespace DesignTokens.Build

open MemoryDisk Theme Token

/-- Plans that are put together from the standard one. -/
inductive Plan.Composed : Plan → Prop
  | standard : Composed .standard
  | withTokensDir {plan : Plan} (folder : String) (composed : Composed plan) :
      Composed (plan.withTokensDir folder)
  | withOutDir {plan : Plan} (folder : String) (composed : Composed plan) :
      Composed (plan.withOutDir folder)
  | withJob {plan : Plan} (job : Job) (composed : Composed plan) : Composed (plan.withJob job)
  | only {plan next : Plan} (name : String) (composed : Composed plan)
      (done : plan.only name = .ok next) : Composed next

variable {plan next : Plan} {disk after : MemoryDisk} {place : List String} {job : Job}
  {theme : Theme} {themes : List Theme} {name folder : String}

theorem Plan.jobs_of_only (done : plan.only name = .ok next) :
    next.jobs = (plan.jobs.filter fun job => job.name = name) ∧ next.jobs ≠ [] := by
  rw [Plan.only] at done
  split at done
  · cases done
  · rename_i filled
    cases done
    exact ⟨rfl, filled⟩

theorem Plan.Composed.jobs (composed : plan.Composed) :
    (plan.jobs.map Job.name).Nodup ∧ plan.jobs ≠ [] := by
  induction composed with
  | standard => exact ⟨List.nodup_singleton _, List.cons_ne_nil _ _⟩
  | withTokensDir folder _ ih => exact ih
  | withOutDir folder _ ih => exact ih
  | withJob job _ ih =>
      refine ⟨?_, List.append_ne_nil_of_right_ne_nil _ (List.cons_ne_nil _ _)⟩
      rw [Plan.withJob, List.map_append, List.nodup_append]
      refine ⟨?_, List.nodup_singleton _, ?_⟩
      · exact ih.1.sublist (List.filter_sublist.map Job.name)
      · intro name member other here
        obtain ⟨kept, listed, rfl⟩ := List.mem_map.mp member
        rw [List.mem_singleton.mp here]
        exact of_decide_eq_true (List.mem_filter.mp listed).2
  | only name _ done ih =>
      obtain ⟨kept, filled⟩ := Plan.jobs_of_only done
      refine ⟨?_, filled⟩
      rw [kept]
      exact ih.1.sublist (List.filter_sublist.map Job.name)

def Loaded (entry : String × Theme) (pair : Job × Theme) : Prop :=
  entry.1 = pair.1.name ∧ entry.2.name = pair.1.name ∧ entry.2.same pair.2 = true

theorem run_loadListings {pairs : List (Job × Theme)}
    (each : ∀ pair ∈ pairs, ∃ again,
      (loadTheme (below folder (Listing.ofJob pair.1).theme) : Task (StateM MemoryDisk) Theme).run disk =
        (.ok again, disk) ∧ again.name = pair.1.name ∧ again.same pair.2 = true)
    (distinct : (pairs.map fun pair => pair.1.name).Nodup) (catalogue : Catalogue)
    (fresh : ∀ pair ∈ pairs, pair.1.name ∉ catalogue.names) :
    ∃ loaded, List.Forall₂ Loaded loaded pairs ∧
      (loadListings folder (pairs.map fun pair => Listing.ofJob pair.1) catalogue :
        Task (StateM MemoryDisk) Catalogue).run disk = (.ok ⟨catalogue.themes ++ loaded⟩, disk) := by
  induction pairs generalizing catalogue with
  | nil => exact ⟨[], .nil, by rw [List.append_nil]; rfl⟩
  | cons pair rest ih =>
      obtain ⟨⟨again, first, named, same⟩, others⟩ := List.forall_mem_cons.mp each
      obtain ⟨unmet, distinct⟩ := List.nodup_cons.mp distinct
      obtain ⟨new, fresh⟩ := List.forall_mem_cons.mp fresh
      have registered : catalogue.register again = ⟨catalogue.themes ++ [(pair.1.name, again)]⟩ := by
        rw [Catalogue.register, named, Entries.put_of_fresh again new]
      obtain ⟨loaded, all, later⟩ := ih others distinct (catalogue.register again) (by
        intro other listed known
        rw [registered, Catalogue.names, Entries.names, List.map_append, List.mem_append] at known
        rcases known with old | here
        · exact fresh other listed old
        · apply unmet
          rw [← List.mem_singleton.mp here]
          exact List.mem_map.mpr ⟨other, listed, rfl⟩)
      refine ⟨(pair.1.name, again) :: loaded, .cons ⟨rfl, named, same⟩ all, ?_⟩
      rw [List.map_cons, loadListings, run_bind_of_ok _ first, later, registered, List.append_assoc]
      rfl

theorem Built.loadTheme (built : Built plan themes disk place after) (whole : plan.Whole)
    (distinct : (plan.jobs.map Job.name).Nodup) (pair : (job, theme) ∈ plan.jobs.zip themes)
    (plain : ∀ c ∈ job.file.toList, Toml.isPlain c = true) :
    ∃ again, (loadTheme (below plan.outDir (Listing.ofJob job).theme) :
        Task (StateM MemoryDisk) Theme).run after = (.ok again, after) ∧
      again.name = job.name ∧ again.same theme = true := by
  have listed : job ∈ plan.jobs := (List.of_mem_zip pair).1
  have assembled := (List.forall₂_iff_zip.mp built.each).2 pair
  have made := (List.forall₂_iff_zip.mp built.made).2 pair
  obtain ⟨other, pair', found⟩ := built.find_last (Plan.lastJob?_of_nodup distinct listed)
  have same : other = theme := by
    have assembled' := (List.forall₂_iff_zip.mp built.each).2 pair'
    rw [assembled] at assembled'
    exact (Except.ok.inj (Prod.mk.inj assembled').1).symm
  have held := built.read_theme (whole job listed) (same ▸ found)
  obtain ⟨again, read, named, equal⟩ := ofDocument_arrange made.2 (resolved_of_assembleJob assembled)
  have parsed : readDocument .toml (below plan.outDir (Listing.ofJob job).theme)
      (sourceText theme job.file) = .ok (Toml.arrange theme.toDocument) := by
    rw [readDocument, Format.read, read_sourceText made.2 plain]
  have known := Listing.ofFile?_theme (whole job listed) plan.outDir
  exact ⟨again, run_loadTheme_of_read held known parsed read, named.trans made.1, equal⟩

theorem Built.loadIndex (built : Built plan themes disk place after) (some : plan.jobs ≠ []) :
    (Manifest.load (below plan.outDir Manifest.fileName) : Task (StateM MemoryDisk) Manifest).run after =
      (.ok plan.manifest, after) := by
  have listings : plan.manifest.listings ≠ [] := by
    rw [Plan.manifest]
    simpa using some
  rw [Manifest.load, run_bind_of_ok _ (run_loadText_of_read built.read_index), run_succeed,
    Manifest.read_manifestText listings]

theorem Loaded.names {loaded : Entries Theme} {pairs : List (Job × Theme)}
    (all : List.Forall₂ Loaded loaded pairs) :
    loaded.names = pairs.map fun pair => pair.1.name := by
  induction all with
  | nil => rfl
  | cons first _ ih => rw [List.map_cons, ← ih, ← first.1]; rfl

/--
A plan that is put together from the standard one, with names that hold no slash and files whose names
hold nothing that ends a comment, is loaded back once it is built: the catalogue holds the themes of
the plan and no others, in order and under their names, and each of them equals the theme that was
assembled before the build.
-/
theorem build_loads_back (plan : Plan) (composed : plan.Composed)
    (whole : ∀ job ∈ plan.jobs, '/' ∉ job.name.toList)
    (plain : ∀ job ∈ plan.jobs, ∀ c ∈ job.file.toList, Toml.isPlain c = true)
    (disk after : MemoryDisk) (manifest : Manifest)
    (done : (build plan : Task (StateM MemoryDisk) Manifest).run disk = (.ok manifest, after)) :
    ∃ themes catalogue,
      (check plan : Task (StateM MemoryDisk) (List Theme)).run disk = (.ok themes, disk) ∧
      (loadGenerated plan.outDir : Task (StateM MemoryDisk) Catalogue).run after =
        (.ok catalogue, after) ∧
      catalogue.names = plan.jobs.map Job.name ∧
      List.Forall₂ (fun entry theme => entry.2.name = entry.1 ∧ entry.2.same theme = true)
        catalogue.themes themes := by
  obtain ⟨distinct, some⟩ := composed.jobs
  obtain ⟨-, themes, place, built⟩ := built_of_build whole done
  have jobs {α : Type} (f : Job → α) :
      (plan.jobs.zip themes).map (fun pair => f pair.1) = plan.jobs.map f :=
    calc
      _ = ((plan.jobs.zip themes).map Prod.fst).map f := List.map_map.symm
      _ = plan.jobs.map f := by rw [List.map_fst_zip built.made.length_eq.le]
  have each : ∀ pair ∈ plan.jobs.zip themes, ∃ again,
      (loadTheme (below plan.outDir (Listing.ofJob pair.1).theme) :
        Task (StateM MemoryDisk) Theme).run after = (.ok again, after) ∧
      again.name = pair.1.name ∧ again.same pair.2 = true := by
    intro pair member
    have listed := (List.of_mem_zip member).1
    exact built.loadTheme whole distinct member (plain pair.1 listed)
  obtain ⟨loaded, all, loads⟩ := run_loadListings each (jobs Job.name ▸ distinct) .empty
    fun _ _ => List.not_mem_nil
  refine ⟨themes, ⟨loaded⟩, built.checked, ?_, (Loaded.names all).trans (jobs Job.name), ?_⟩
  · rw [jobs] at loads
    rw [loadGenerated, run_bind_of_ok _ (built.loadIndex some)]
    exact loads
  · rw [← List.map_snd_zip built.made.length_eq.ge, List.forall₂_map_right_iff]
    exact all.imp fun entry pair ⟨name, named, same⟩ => ⟨named.trans name.symm, same⟩

def twoJobs : Plan := (Plan.standard.withJob ⟨"Day.toml", "default"⟩).withJob ⟨"Night.toml", "night"⟩

theorem twoJobs_jobs : twoJobs.jobs = [⟨"Day.toml", "default"⟩, ⟨"Night.toml", "night"⟩] := by
  decide

theorem exists_build_twoJobs : ∃ after,
    (build twoJobs : Task (StateM MemoryDisk) Manifest).run (workshop skies) =
      (.ok twoJobs.manifest, after) := by
  have default : Nameable "default" := ⟨by decide, by decide, by decide, by decide⟩
  refine exists_build_workplace rfl rfl ?_ ?_ [] []
  · rw [twoJobs_jobs]
    exact List.forall_mem_cons.mpr
      ⟨⟨_, stocked_day⟩, List.forall_mem_singleton.mpr ⟨_, stocked_night⟩⟩
  · rw [twoJobs_jobs]
    exact List.forall_mem_cons.mpr ⟨default, List.forall_mem_singleton.mpr nameable_night⟩

theorem build_of_twoJobs : ∃ after,
    twoJobs.Composed ∧ (∀ job ∈ twoJobs.jobs, '/' ∉ job.name.toList) ∧
    (∀ job ∈ twoJobs.jobs, ∀ c ∈ job.file.toList, Toml.isPlain c = true) ∧
    (build twoJobs : Task (StateM MemoryDisk) Manifest).run (workshop skies) =
      (.ok twoJobs.manifest, after) ∧
    ∃ catalogue, (loadGenerated "generated" : Task (StateM MemoryDisk) Catalogue).run after =
        (.ok catalogue, after) ∧
      catalogue.names = ["default", "night"] := by
  have composed : twoJobs.Composed := .withJob _ (.withJob _ .standard)
  have whole : ∀ job ∈ twoJobs.jobs, '/' ∉ job.name.toList := by
    rw [twoJobs_jobs]
    decide
  have plain : ∀ job ∈ twoJobs.jobs, ∀ c ∈ job.file.toList, Toml.isPlain c = true := by
    rw [twoJobs_jobs]
    exact List.forall_mem_cons.mpr ⟨List.all_eq_true.mp (by decide),
      List.forall_mem_singleton.mpr (List.all_eq_true.mp (by decide))⟩
  obtain ⟨after, done⟩ := exists_build_twoJobs
  obtain ⟨themes, catalogue, -, loaded, names, -⟩ :=
    build_loads_back twoJobs composed whole plain _ _ _ done
  rw [twoJobs_jobs] at names
  exact ⟨after, composed, whole, plain, done, catalogue, loaded, names⟩

end DesignTokens.Build
