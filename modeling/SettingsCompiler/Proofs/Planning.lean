import SettingsCompiler.Proofs.Regeneration

/-!
# What a command leaves behind

A command plans all its outputs before it writes any of them (`planned`). If it cannot plan them,
it has done nothing. A check compares every output with its file, and changes no file. A command
that writes changes the files of its outputs and nothing else, but for directories that were
missing on the way to them (`followsPlan`).

That nothing else changes is the invariant `Confines` of each step : wherever a workspace differs
from an earlier one, there is either a file that may be written, or a directory where nothing was.
It holds of a command that stops on the way as well.

A file that stays empty keeps nothing of what is written to it (`keepsNothing_void`).

File systems are those of `Workspace`, without links, permissions and devices other than the null
device. Of a command that runs a formatter only the planning is covered.
-/

namespace SettingsCompiler

open Workspace

namespace Path

/-- The first path is a directory of the second, or one around that, as far as paths tell. -/
inductive Encloses (directory : String) : String → Prop
  | parent {path : String} : parent? path = some directory → Encloses directory path
  | further {path parent : String} :
      parent? path = some parent → Encloses directory parent → Encloses directory path

end Path

namespace Workspace

/-! ## Changes in bounds -/

/-- Where `w'` is not as `w`, there is a file at one of the locations `ls`, or a new directory at
one that `dirs` holds of. -/
def Confines (ls : List Location) (dirs : Location → Prop) (w w' : Workspace) : Prop :=
  ∀ l, w'.find? l = w.find? l ∨ l ∈ ls ∨
    dirs l ∧ w.find? l = none ∧ w'.find? l = some .directory

namespace Confines

variable {ls : List Location} {dirs : Location → Prop} {w w' w'' : Workspace}

theorem refl : Confines ls dirs w w :=
  fun _ => .inl rfl

/-- Two changes in bounds are one, since neither takes away what it finds. -/
theorem trans (h : Confines ls dirs w w') (h' : Confines ls dirs w' w'') :
    Confines ls dirs w w'' := by
  intro l
  rcases h l with heq | hmem | ⟨hdir, hnone, hnew⟩
  · rw [← heq]
    exact h' l
  · exact .inr (.inl hmem)
  · rcases h' l with heq' | hmem | ⟨-, hnone', -⟩
    · exact .inr (.inr ⟨hdir, hnone, heq'.trans hnew⟩)
    · exact .inr (.inl hmem)
    · cases hnew.symm.trans hnone'

theorem mono {ls' : List Location} {dirs' : Location → Prop} (h : Confines ls dirs w w')
    (hls : ls ⊆ ls') (hdirs : ∀ l, dirs l → dirs' l) : Confines ls' dirs' w w' :=
  fun l => (h l).imp id (Or.imp (@hls l) (And.imp_left (hdirs l)))

end Confines

/-- A directory that is made is new, and nothing else is. -/
theorem confines_ensureDirectory {w : Workspace} {path : String}
    (hpath : withoutSlashes path = path) :
    Confines [] (· = place path) w (w.ensureDirectory path).2 := by
  unfold ensureDirectory
  split
  · next w' h =>
    obtain ⟨l, hl, hnone, rfl⟩ := makeDirectory_ok h
    rw [hpath] at hl
    obtain rfl := locate_eq hl
    have hne : place path ≠ [] := ne_nil_of_find? (w := w) (by simp [hnone])
    intro l
    rw [find?_put hne]
    split
    · next heq => exact .inr (.inr ⟨heq, heq ▸ hnone, rfl⟩)
    · exact .inl rfl
  · exact .refl

/-- The location of a directory or of one around it. -/
def IsDirectoryOf (path : String) (l : Location) : Prop :=
  ∃ directory, (directory = path ∨ Path.Encloses directory path) ∧ l = place directory

/-- Making directories puts new ones on the way to the last, whether it succeeds or not. -/
theorem confines_makeDirectoriesTo : ∀ (depth : Nat) (w : Workspace) {path : String},
    withoutSlashes path = path →
    Confines [] (IsDirectoryOf path) w (makeDirectoriesTo depth w path).2
  | depth, w, path, hpath => by
    have hensure (w : Workspace) : Confines [] (IsDirectoryOf path) w (w.ensureDirectory path).2 :=
      (confines_ensureDirectory hpath).mono (List.Subset.refl _) fun l hl => ⟨path, .inl rfl, hl⟩
    have hfirst := hensure w
    rw [makeDirectoriesTo.eq_def]
    split
    · exact .refl
    · split
      · next w₁ hw₁ =>
        rw [hw₁] at hfirst
        split
        · next depth parent hparent =>
          have haround := confines_makeDirectoriesTo depth w₁ (Path.withoutSlashes_parent? hparent)
          have hwider : ∀ l, IsDirectoryOf parent l → IsDirectoryOf path l := by
            rintro l ⟨directory, rfl | hencloses, hl⟩
            · exact ⟨_, .inr (.parent hparent), hl⟩
            · exact ⟨_, .inr (.further hparent hencloses), hl⟩
          have hthere := hfirst.trans (haround.mono (List.Subset.refl _) hwider)
          split
          · next e w₂ hw₂ =>
            rw [hw₂] at hthere
            exact hthere
          · next w₂ hw₂ =>
            rw [hw₂] at hthere
            exact hthere.trans (hensure w₂)
        · exact hfirst
      · exact hfirst

/-- Writing a file changes that file alone. -/
theorem confines_write {w w' : Workspace} {path s : String} (h : w.write path s = .ok w') :
    Confines [place path] (fun _ => False) w w' := by
  cases htarget : w.target path with
  | error e =>
    rw [write, store, htarget] at h
    cases h
  | ok l =>
    obtain ⟨hlocate, hdir⟩ := target_ok htarget
    obtain rfl := locate_eq hlocate
    rw [write_of_target htarget, Except.ok.injEq] at h
    subst h
    split
    · exact .refl
    · intro l
      rw [find?_put (ne_nil_of_find? hdir)]
      split
      · next heq => exact .inr (.inl (List.mem_singleton.mpr heq))
      · exact .inl rfl

end Workspace

namespace Output

/-- The location of a directory around one of the outputs. -/
def IsDirectoryAround (os : List Output) (l : Location) : Prop :=
  ∃ o ∈ os, ∃ directory, Path.Encloses directory o.path ∧ l = place directory

/-- A sequence of jobs changes what its parts change, however far it gets. -/
theorem confines_bind {α β : Type} {t : Job α} {next : α → Job β} {ls : List Location}
    {dirs : Location → Prop} {s : Session} (h : Confines ls dirs s.files (t.runFrom s).2.files)
    (h' : ∀ a s', Confines ls dirs s'.files ((next a).runFrom s').2.files) :
    Confines ls dirs s.files ((t >>= next).runFrom s).2.files := by
  rw [Job.runFrom_bind]
  rcases hrun : t.runFrom s with ⟨e | a, s₁⟩
  · rw [hrun] at h
    exact h
  · rw [hrun] at h
    exact h.trans (h' a s₁)

/-- Writing an output changes its file, and makes directories around it. -/
theorem confines_write (o : Output) (s : Session) :
    Confines [place o.path] (IsDirectoryAround [o]) s.files (o.write.runFrom s).2.files := by
  have hfile (s : Session) : Confines [place o.path] (IsDirectoryAround [o]) s.files
      ((Job.change fun w => Failure.within (.writing o.path) .os
        (w.write o.path o.contents)).runFrom s).2.files := by
    rw [Job.runFrom_change]
    cases hwrite : s.files.write o.path o.contents with
    | error e => exact .refl
    | ok w => exact (Workspace.confines_write hwrite).mono (List.Subset.refl _) nofun
  have hrest (s : Session) := confines_bind (hfile s) fun _ s' =>
    show Confines _ _ s'.files ((Job.say ("OK: wrote " ++ o.path ++ "\n")).runFrom s').2.files
      from .refl
  unfold write
  cases hparent : Path.parent? o.path with
  | none => exact hrest s
  | some parent =>
    refine confines_bind ?_ fun _ s' => hrest s'
    rw [Job.runFrom_advance]
    refine (confines_makeDirectoriesTo parent.length s.files
      (Path.withoutSlashes_parent? hparent)).mono (List.nil_subset _) ?_
    rintro l ⟨directory, rfl | hencloses, hl⟩
    · exact ⟨o, List.mem_singleton_self o, _, .parent hparent, hl⟩
    · exact ⟨o, List.mem_singleton_self o, _, .further hparent hencloses, hl⟩

/-- Writing outputs changes their files, and makes directories around them, also where it stops
on the way. -/
theorem confines_writeAll : ∀ (os : List Output) (s : Session),
    Confines (os.map fun o => place o.path) (IsDirectoryAround os) s.files
      ((writeAll os).runFrom s).2.files
  | [], s => .refl
  | o :: os, s => by
    refine confines_bind ((confines_write o s).mono ?_ ?_) fun _ s' =>
      (confines_writeAll os s').mono (List.subset_cons_self _ _) ?_
    · exact List.cons_subset_cons _ (List.nil_subset _)
    · rintro l ⟨o', ho', h⟩
      exact ⟨o', List.mem_cons.mpr (.inl (List.mem_singleton.mp ho')), h⟩
    · rintro l ⟨o', ho', h⟩
      exact ⟨o', List.mem_cons_of_mem o ho', h⟩

end Output

/-! ## A command and its plan -/

/-- The outputs that a command plans. -/
def planned (options : GenerateOptions) (config : String) (w : Workspace) :
    Except Failure (List Output) := do
  let c ← Config.load w config
  (options.apply c).plan w

/-- No formatter is run on the outputs. -/
def IsPlain (options : GenerateOptions) (os : List Output) : Prop :=
  ∀ o ∈ os, options.format = true → o.formatter = none

/-- What a command does follows from its plan. Without one it fails and does nothing else. A check
changes no file, says of every output how it compares, and has the code `0` iff every output
reads as planned. A command that has written all outputs has put each in its file, if the files
are different and none stays empty, as that of the page may. Whatever stops such a command, it
changes the files of outputs alone, and makes directories around them. -/
structure FollowsPlan (options : GenerateOptions) (config : String) (s : Session) : Prop where
  unplanned : ∀ f, planned options config s.files = .error f →
    (generate options config).runFrom s = (.error f, s)
  checks : ∀ os, planned options config s.files = .ok os → IsPlain options os →
    options.check = true → (generate options config).runFrom s =
      (.ok (if ∀ o ∈ os, s.files.read o.path = .ok o.contents then 0 else 1),
        ⟨s.files, s.printed ++ Text.unlines (os.map (Output.verdict s.files))⟩)
  writes : ∀ os s', planned options config s.files = .ok os → IsPlain options os →
    options.check = false → (os.map fun o => place o.path).Nodup →
    (generate options config).runFrom s = (.ok 0, s') → ∀ o ∈ os,
      s'.files.read o.path = .ok (if s.files.isNull o.path then "" else o.contents)
  isNull_page : ∀ os, planned options config s.files = .ok os → ∀ o ∈ os,
    s.files.isNull o.path = true →
    ∃ c t, Config.load s.files config = .ok c ∧ c.page = some t ∧ t.path = o.path
  confines : ∀ os, planned options config s.files = .ok os → IsPlain options os →
    options.check = false → Confines (os.map fun o => place o.path) (Output.IsDirectoryAround os)
      s.files ((generate options config).runFrom s).2.files

/-- From every workspace and for all options, a command without a plan leaves all files as they
are. Where no formatter is run, a check changes none, and a command that writes changes those of
its outputs and no others. -/
theorem followsPlan (options : GenerateOptions) (config : String) (s : Session) :
    FollowsPlan options config s where
  unplanned f h := by
    rw [generate, Job.runFrom_bind, Job.runFrom_ofFiles, ← planned, h]
  checks os h hplain hcheck := by
    obtain ⟨c, hload, hplan⟩ := Failure.bind_ok.mp h
    rw [runFrom_generate options hload hplan hplain, if_pos hcheck, Job.runFrom_bind,
      Output.checkAll_eq hplain]
    simp only [Job.runFrom_pure, decide_eq_true_eq]
  writes os s' h hplain hcheck hnodup hrun o ho := by
    obtain ⟨c, hload, hplan⟩ := Failure.bind_ok.mp h
    rw [runFrom_generate options hload hplan hplain, if_neg (by simp [hcheck])] at hrun
    obtain ⟨⟨⟩, s₁, hwrite, hpure⟩ := Job.runFrom_bind_ok.mp hrun
    obtain rfl : s₁ = s' := (Prod.mk.inj hpure).2
    obtain ⟨hret, hwritten⟩ := Output.writeAll_ok hnodup hwrite
    rw [(hwritten o ho).holds.read, hret.isNull]
  isNull_page os h o ho hnull := by
    obtain ⟨c, hload, hplan⟩ := Failure.bind_ok.mp h
    obtain ⟨t, ht, hpath⟩ := (Config.plans_of_mem hplan ho).page_of_isNull hnull
    exact ⟨c, t, hload, ht, hpath⟩
  confines os h hplain hcheck := by
    obtain ⟨c, hload, hplan⟩ := Failure.bind_ok.mp h
    rw [runFrom_generate options hload hplan hplain, if_neg (by simp [hcheck])]
    exact Output.confines_bind (Output.confines_writeAll os s) fun _ _ => .refl

/-- The text of a configuration whose page is in a directory of its own. -/
def bareConfig : String :=
  Text.unlines ["schema: s.yaml", "version: 3.6", "html_doc:", "  path: docs/settings.html"]

/-- The configuration that `bareConfig` says. -/
def bareTarget : Config :=
  ⟨"s.yaml", "3.6", 80, none, none, some ⟨"docs/settings.html", "Settings"⟩⟩

/-- A system where this directory is missing. -/
def bareDesk : Workspace :=
  ⟨[(["setgen.yaml"], .file (.text bareConfig)), (["s.yaml"], .file (.text deskSchema))]⟩

/-- The system with the directory. -/
def shelvedDesk : Workspace :=
  ⟨bareDesk.entries ++ [(["docs"], .directory)]⟩

/-- The page is planned though its directory is missing. -/
theorem planned_bareDesk : ∃ page, planned writing "setgen.yaml" bareDesk =
    .ok [⟨"docs/settings.html", page, none⟩] := by
  have hconfig : bareDesk.read "setgen.yaml" = .ok bareConfig :=
    read_ok.mpr ⟨(locate_eq_follow (by decide)).trans (by decide +kernel), .inl (by decide +kernel)⟩
  have hdocument : (Yaml.document? bareConfig).bind Config.ofNode? = some bareTarget := by
    decide +kernel
  have hload : Config.load bareDesk "setgen.yaml" = .ok bareTarget :=
    Config.load_ok.mpr ⟨bareConfig, bareTarget, hconfig, hdocument, by decide +kernel⟩
  have hschema : bareDesk.read "s.yaml" = .ok deskSchema :=
    read_ok.mpr ⟨(locate_eq_follow (by decide)).trans (by decide +kernel), .inl (by decide +kernel)⟩
  obtain ⟨page, hplan⟩ := exists_plan_page hschema
  exact ⟨page, Failure.bind_ok.mpr ⟨bareTarget, hload, hplan⟩⟩

/-- The directory of the page is made, and the page is in it. -/
theorem followsPlan_bareDesk : ∃ page s',
    planned writing "setgen.yaml" bareDesk = .ok [⟨"docs/settings.html", page, none⟩] ∧
      (generate writing "setgen.yaml").runFrom ⟨bareDesk, ""⟩ = (.ok 0, s') ∧
      s'.files.read "docs/settings.html" = .ok page := by
  obtain ⟨page, hplanned⟩ := planned_bareDesk
  have hplain : IsPlain writing [⟨"docs/settings.html", page, none⟩] :=
    List.forall_mem_singleton.mpr fun _ => rfl
  have hmake : bareDesk.makeDirectory "docs" = .ok shelvedDesk := by
    have hslash : withoutSlashes "docs" = "docs" := by decide +kernel
    have hlocate : bareDesk.locate "docs" = .ok ["docs"] :=
      (locate_eq_follow (by decide)).trans (by decide +kernel)
    rw [makeDirectory, hslash, hlocate]
    decide +kernel
  have hmade : bareDesk.makeDirectories "docs" = (.ok (), shelvedDesk) := by
    rw [makeDirectories, makeDirectoriesTo.eq_def, if_neg (by decide), ensureDirectory, hmake]
  have htarget : shelvedDesk.target "docs/settings.html" = .ok ["docs", "settings.html"] := by
    have hlocate : shelvedDesk.locate "docs/settings.html" = .ok ["docs", "settings.html"] :=
      (locate_eq_follow (by decide)).trans (by decide +kernel)
    rw [target, hlocate]
    decide +kernel
  have hparent : Path.parent? "docs/settings.html" = some "docs" := by decide +kernel
  obtain ⟨s', hwrite⟩ : ∃ s', (Output.write ⟨"docs/settings.html", page, none⟩).runFrom
      ⟨bareDesk, ""⟩ = (.ok (), s') := by
    refine ⟨_, Output.runFrom_write_ok.mpr ⟨shelvedDesk, _, ?_, write_of_target htarget, rfl⟩⟩
    dsimp only
    rw [hparent]
    exact hmade
  obtain ⟨c, hload, hplan⟩ := Failure.bind_ok.mp hplanned
  have hrun := runFrom_generate (s := ⟨bareDesk, ""⟩) writing hload hplan hplain
  rw [if_neg (by decide), Output.writeAll, Job.runFrom_bind, Job.runFrom_bind, hwrite] at hrun
  have hread := (followsPlan writing "setgen.yaml" ⟨bareDesk, ""⟩).writes _ _ hplanned hplain rfl
    (List.nodup_singleton _) hrun _ List.mem_cons_self
  have hnull : bareDesk.isNull "docs/settings.html" = false := by decide +kernel
  rw [hnull, if_neg Bool.false_ne_true] at hread
  exact ⟨page, s', hplanned, hrun, hread⟩

/-- A page that is written to a file that stays empty is not in it. -/
theorem keepsNothing_void : ∃ os s', planned writing "setgen.yaml" voidDesk = .ok os ∧
    IsPlain writing os ∧ (os.map fun o => place o.path).Nodup ∧
    (generate writing "setgen.yaml").runFrom ⟨voidDesk, ""⟩ = (.ok 0, s') ∧
    ∃ o ∈ os, s'.files.read o.path ≠ .ok o.contents := by
  obtain ⟨page, hplan⟩ := plan_voidDesk
  let o : Output := ⟨"/dev/null", page, none⟩
  have hwritten : ∀ o' ∈ [o], o'.IsWritten voidDesk :=
    List.forall_mem_singleton.mpr (isWritten_voidDesk page)
  have hplain : IsPlain writing [o] := List.forall_mem_singleton.mpr fun _ => rfl
  have hrun := runFrom_generate (s := ⟨voidDesk, ""⟩) writing load_voidDesk hplan hplain
  rw [if_neg (by decide), Job.runFrom_bind, Output.writeAll_again hwritten] at hrun
  refine ⟨[o], _, Failure.bind_ok.mpr ⟨voidTarget, load_voidDesk, hplan⟩, hplain,
    List.nodup_singleton _, hrun, o, List.mem_cons_self, ?_⟩
  have hnull : voidDesk.isNull "/dev/null" = true := by decide +kernel
  have hread := (isWritten_voidDesk page).holds.read
  rw [hnull, if_pos rfl] at hread
  intro hpage
  have hempty : "" = page := Except.ok.inj (hread.symm.trans hpage)
  exact (Config.plans_of_mem hplan List.mem_cons_self).contents_ne_empty hempty.symm

end SettingsCompiler
