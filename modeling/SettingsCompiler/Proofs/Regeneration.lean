import SettingsCompiler.Command.Generate
import SettingsCompiler.Proofs.Persistence
import SettingsCompiler.Proofs.Splicing

/-!
# Generating once more

When all outputs of a configuration were written and no formatter changed them, a check finds
them up to date and another command changes no file (`settles`). The outputs must be different
files, and neither the configuration nor the schema (`Config.IsSeparate`).

A plan reads the configuration, the schema and what stands in front of the markers, and writing
the planned outputs keeps all of it (`Config.plan_again`). Each output is then in its file
(`Output.writeAll_ok`), where it is written and checked without a change
(`Output.writeAll_again`, `Output.checkAll_again`).

One file is never up to date : a page on the null device reads as empty, whatever was written to
it (`Config.Plans.page_of_isNull`, `not_upToDate_void`).

All this is about file systems as `Workspace` has them, without links, permissions and devices
other than the null device.
-/

namespace SettingsCompiler

open Workspace

/-! ## Planning again -/

theorem Docs.Page.around_ne_empty (p : Docs.Page) (body : String) : p.around body ≠ "" := by
  intro h
  have := congrArg String.toList h
  simp [Docs.Page.around, Text.unlines] at this

namespace Config

variable {w w' : Workspace}

/-- The paths of the outputs. -/
def outputPaths (c : Config) : List String :=
  (c.header.map (·.path)).toList ++ (c.text.map (·.path)).toList ++ (c.page.map (·.path)).toList

/-- The files that are written are different files, and neither the configuration nor the
schema. -/
structure IsSeparate (c : Config) (config : String) : Prop where
  nodup : (c.outputPaths.map place).Nodup
  config : place config ∉ c.outputPaths.map place
  schema : place c.schema ∉ c.outputPaths.map place

/-- A configuration is loaded from the text of its file. -/
theorem load_ok {path : String} {c : Config} :
    load w path = .ok c ↔ ∃ text written, w.read path = .ok text ∧
      (Yaml.document? text).bind ofNode? = some written ∧
      written.seenFrom ((Path.parent? path).getD ".") = c := by
  unfold load
  simp only [Failure.bind_ok, Failure.within_ok, exists_and_left]
  refine exists_congr fun text => and_congr_right fun _ => ?_
  split
  · next h => rw [h]; simp
  · next h => rw [h]; simp

/-- The roots are those of the schema, each with the version stamped into it. -/
theorem roots_ok {c : Config} {roots : List Setting} :
    c.roots w = .ok roots ↔ ∃ text schema resolved, w.read c.schema = .ok text ∧
      (Yaml.document? text).bind Schema.ofNode? = some schema ∧
      schema.resolve = .ok resolved ∧ resolved.map (·.stamp c.version) = roots := by
  unfold Config.roots
  simp only [Failure.bind_ok, Failure.within_ok, exists_and_left]
  refine exists_congr fun text => and_congr_right fun _ => ?_
  split
  · next h => rw [h]; simp
  · next h => rw [h]; simp [Failure.bind_ok, Failure.within_ok]

/-- An output is spliced into the text that its file has now. -/
theorem spliceInto_ok {path marker generated contents : String} :
    spliceInto w path marker generated = .ok contents ↔
      ∃ existing, w.read path = .ok existing ∧
        splice? existing marker generated = some contents := by
  unfold spliceInto
  simp only [Failure.bind_ok, Failure.within_ok]
  refine exists_congr fun existing => and_congr_right fun _ => ?_
  split
  · next h => rw [h]; simp
  · next h => rw [h]; simp

/-- A file that stays empty has no marker. -/
theorem isNull_of_spliceInto {path marker generated contents : String}
    (h : spliceInto w path marker generated = .ok contents) : w.isNull path = false := by
  obtain ⟨existing, hread, hsplice⟩ := spliceInto_ok.mp h
  rcases (read_ok.mp hread).2 with hfile | ⟨-, rfl⟩
  · rw [isNull, hfile]
    rfl
  · cases hsplice

/-- A text that was spliced into a file is spliced into it again. -/
theorem spliceInto_again {path marker generated contents : String}
    (h : spliceInto w path marker generated = .ok contents) (hholds : w'.Holds path contents)
    (hnull : w'.isNull path = w.isNull path) :
    spliceInto w' path marker generated = .ok contents := by
  obtain ⟨existing, hread, hsplice⟩ := spliceInto_ok.mp h
  refine spliceInto_ok.mpr ⟨contents, ?_, ?_⟩
  · rw [hholds.read, hnull, isNull_of_spliceInto h]
    rfl
  · rw [splice?_again hsplice, hsplice]

theorem headerOutput_ok {roots : List Setting} {t : HeaderTarget} {o : Output} :
    headerOutput w roots t = .ok o ↔ ∃ header contents, Header.compile roots = .ok header ∧
      spliceInto w t.path t.marker (header.render t.guardName) = .ok contents ∧
      ⟨t.path, contents, t.formatter⟩ = o := by
  unfold headerOutput
  simp only [Failure.bind_ok, Failure.within_ok, Except.ok.injEq, exists_and_left]

theorem textOutput_ok {c : Config} {root : Setting} {t : TextTarget} {o : Output} :
    c.textOutput w root t = .ok o ↔ ∃ text contents, Docs.renderText c.wrapWidth root = .ok text ∧
      spliceInto w t.path t.marker text = .ok contents ∧ ⟨t.path, contents, none⟩ = o := by
  unfold textOutput
  simp only [Failure.bind_ok, Failure.within_ok, Except.ok.injEq, exists_and_left]

theorem pageOutput_ok {c : Config} {root : Setting} {t : PageTarget} {o : Output} :
    c.pageOutput root t = .ok o ↔ ∃ contents,
      Docs.Page.render ⟨t.title, c.version, c.wrapWidth⟩ root = .ok contents ∧
      ⟨t.path, contents, none⟩ = o := by
  unfold pageOutput
  simp only [Failure.bind_ok, Failure.within_ok, Except.ok.injEq]

/-- A plan has the outputs of the header, of the text and of the page, as far as the
configuration asks for them. -/
theorem plan_ok {c : Config} {os : List Output} :
    c.plan w = .ok os ↔ ∃ root others header text page, c.roots w = .ok (root :: others) ∧
      forTarget (headerOutput w (root :: others)) c.header = .ok header ∧
      forTarget (c.textOutput w root) c.text = .ok text ∧
      forTarget (c.pageOutput root) c.page = .ok page ∧ header ++ text ++ page = os := by
  unfold plan
  rw [Failure.bind_ok]
  constructor
  · rintro ⟨roots, hroots, h⟩
    cases roots with
    | nil => cases h
    | cons root others =>
      simp only [Failure.bind_ok, Except.ok.injEq] at h
      obtain ⟨header, hheader, text, htext, page, hpage, rfl⟩ := h
      exact ⟨root, others, header, text, page, hroots, hheader, htext, hpage, rfl⟩
  · rintro ⟨root, others, header, text, page, hroots, hheader, htext, hpage, rfl⟩
    refine ⟨root :: others, hroots, ?_⟩
    simp only [Failure.bind_ok, Except.ok.injEq]
    exact ⟨header, hheader, text, htext, page, hpage, rfl⟩

section

variable {α : Type} {output : α → Except Failure Output} {t : Option α} {os : List Output}

theorem forTarget_ok : forTarget output t = .ok os ↔
    (t = none ∧ os = []) ∨ ∃ a o, t = some a ∧ output a = .ok o ∧ os = [o] := by
  cases t with
  | none => simp [forTarget, eq_comm]
  | some a => cases h : output a <;> simp [forTarget, h, Except.map, eq_comm]

end

/-- An output that is planned, and the target it is for. -/
inductive Plans (c : Config) (w : Workspace) (o : Output) : Prop
  | header {roots : List Setting} {t : HeaderTarget} (ht : c.header = some t)
      (ho : headerOutput w roots t = .ok o)
  | text {root : Setting} {t : TextTarget} (ht : c.text = some t)
      (ho : c.textOutput w root t = .ok o)
  | page {root : Setting} {t : PageTarget} (ht : c.page = some t)
      (ho : c.pageOutput root t = .ok o)

/-- Every output of a plan is planned for one of the three targets. -/
theorem plans_of_mem {c : Config} {os : List Output} (h : c.plan w = .ok os) {o : Output}
    (ho : o ∈ os) : c.Plans w o := by
  obtain ⟨root, others, header, text, page, -, hheader, htext, hpage, rfl⟩ := plan_ok.mp h
  simp only [List.mem_append] at ho
  rcases ho with (ho | ho) | ho
  · rcases forTarget_ok.mp hheader with ⟨-, rfl⟩ | ⟨t, o', ht, ho', rfl⟩
    · cases ho
    · exact .header ht (List.mem_singleton.mp ho ▸ ho')
  · rcases forTarget_ok.mp htext with ⟨-, rfl⟩ | ⟨t, o', ht, ho', rfl⟩
    · cases ho
    · exact .text ht (List.mem_singleton.mp ho ▸ ho')
  · rcases forTarget_ok.mp hpage with ⟨-, rfl⟩ | ⟨t, o', ht, ho', rfl⟩
    · cases ho
    · exact .page ht (List.mem_singleton.mp ho ▸ ho')

/-- No output is empty, since it has a marker line or the frame of a page. -/
theorem Plans.contents_ne_empty {c : Config} {o : Output} (h : c.Plans w o) :
    o.contents ≠ "" := by
  cases h with
  | header _ ho =>
    obtain ⟨_, _, -, hsplice, rfl⟩ := headerOutput_ok.mp ho
    obtain ⟨_, -, hsplice⟩ := spliceInto_ok.mp hsplice
    exact splice?_ne_empty hsplice
  | text _ ho =>
    obtain ⟨_, _, -, hsplice, rfl⟩ := textOutput_ok.mp ho
    obtain ⟨_, -, hsplice⟩ := spliceInto_ok.mp hsplice
    exact splice?_ne_empty hsplice
  | page _ ho =>
    obtain ⟨_, hpage, rfl⟩ := pageOutput_ok.mp ho
    rw [Docs.Page.render] at hpage
    cases hhtml : Docs.renderHtml c.wrapWidth _ with
    | error e =>
      rw [hhtml] at hpage
      cases hpage
    | ok html =>
      rw [hhtml] at hpage
      exact Except.ok.inj hpage ▸ Docs.Page.around_ne_empty _ html

theorem Plans.formatter_eq_none {c : Config} {o : Output} (h : c.Plans w o)
    (hheader : ∀ t, c.header = some t → t.formatter = none) : o.formatter = none := by
  cases h with
  | header ht ho =>
    obtain ⟨_, _, -, -, rfl⟩ := headerOutput_ok.mp ho
    exact hheader _ ht
  | text _ ho =>
    obtain ⟨_, _, -, -, rfl⟩ := textOutput_ok.mp ho
    rfl
  | page _ ho =>
    obtain ⟨_, -, rfl⟩ := pageOutput_ok.mp ho
    rfl

/-- Of the outputs the page alone can have a file that stays empty. -/
theorem Plans.page_of_isNull {c : Config} {o : Output} (h : c.Plans w o)
    (hnull : w.isNull o.path = true) : ∃ t, c.page = some t ∧ t.path = o.path := by
  cases h with
  | header _ ho =>
    obtain ⟨_, _, -, hsplice, rfl⟩ := headerOutput_ok.mp ho
    cases hnull.symm.trans (isNull_of_spliceInto hsplice)
  | text _ ho =>
    obtain ⟨_, _, -, hsplice, rfl⟩ := textOutput_ok.mp ho
    cases hnull.symm.trans (isNull_of_spliceInto hsplice)
  | page ht ho =>
    obtain ⟨_, -, rfl⟩ := pageOutput_ok.mp ho
    exact ⟨_, ht, rfl⟩

/-- A plan has one output for each path of the configuration. -/
theorem plan_paths {c : Config} {os : List Output} (h : c.plan w = .ok os) :
    os.map (·.path) = c.outputPaths := by
  obtain ⟨root, others, header, text, page, -, hheader, htext, hpage, rfl⟩ := plan_ok.mp h
  have hheader : header.map (·.path) = (c.header.map (·.path)).toList := by
    rcases forTarget_ok.mp hheader with ⟨ht, rfl⟩ | ⟨t, o, ht, ho, rfl⟩
    · rw [ht]; rfl
    · obtain ⟨_, _, -, -, rfl⟩ := headerOutput_ok.mp ho
      rw [ht]; rfl
  have htext : text.map (·.path) = (c.text.map (·.path)).toList := by
    rcases forTarget_ok.mp htext with ⟨ht, rfl⟩ | ⟨t, o, ht, ho, rfl⟩
    · rw [ht]; rfl
    · obtain ⟨_, _, -, -, rfl⟩ := textOutput_ok.mp ho
      rw [ht]; rfl
  have hpage : page.map (·.path) = (c.page.map (·.path)).toList := by
    rcases forTarget_ok.mp hpage with ⟨ht, rfl⟩ | ⟨t, o, ht, ho, rfl⟩
    · rw [ht]; rfl
    · obtain ⟨_, -, rfl⟩ := pageOutput_ok.mp ho
      rw [ht]; rfl
  rw [List.map_append, List.map_append, hheader, htext, hpage, outputPaths]

/-- The roots are read again if the schema was not written. -/
theorem roots_again {ls : List Location} {c : Config} {roots : List Setting}
    (hret : Retains ls w w') (hschema : place c.schema ∉ ls) (h : c.roots w = .ok roots) :
    c.roots w' = .ok roots := by
  obtain ⟨text, schema, resolved, hread, hrest⟩ := roots_ok.mp h
  exact roots_ok.mpr ⟨text, schema, resolved, hret.read hread hschema, hrest⟩

/-- A plan depends on the schema and on what is in front of the markers, so once its outputs are
written it is planned again. -/
theorem plan_again {ls : List Location} {c : Config} {os : List Output}
    (hret : Retains ls w w') (hschema : place c.schema ∉ ls) (h : c.plan w = .ok os)
    (hholds : ∀ o ∈ os, w'.Holds o.path o.contents) : c.plan w' = .ok os := by
  obtain ⟨root, others, header, text, page, hroots, hheader, htext, hpage, rfl⟩ := plan_ok.mp h
  refine plan_ok.mpr ⟨root, others, header, text, page, roots_again hret hschema hroots,
    ?_, ?_, hpage, rfl⟩
  · refine forTarget_ok.mpr ((forTarget_ok.mp hheader).imp id ?_)
    rintro ⟨t, o, ht, ho, rfl⟩
    obtain ⟨compiled, contents, hcompile, hsplice, rfl⟩ := headerOutput_ok.mp ho
    have hagain := spliceInto_again hsplice (hholds ⟨t.path, contents, t.formatter⟩ (by simp))
      (hret.isNull t.path)
    exact ⟨t, _, ht, headerOutput_ok.mpr ⟨compiled, contents, hcompile, hagain, rfl⟩, rfl⟩
  · refine forTarget_ok.mpr ((forTarget_ok.mp htext).imp id ?_)
    rintro ⟨t, o, ht, ho, rfl⟩
    obtain ⟨rendered, contents, hrender, hsplice, rfl⟩ := textOutput_ok.mp ho
    have hagain := spliceInto_again hsplice (hholds ⟨t.path, contents, none⟩ (by simp))
      (hret.isNull t.path)
    exact ⟨t, _, ht, textOutput_ok.mpr ⟨rendered, contents, hrender, hagain, rfl⟩, rfl⟩

end Config

/-! ## Writing again -/

namespace Output

/-- The output is in its file, and the directory of the file is there. -/
structure IsWritten (o : Output) (w : Workspace) : Prop where
  holds : w.Holds o.path o.contents
  around : ∀ parent, Path.parent? o.path = some parent → w.IsAround parent

/-- An output stays written when other files are. -/
theorem IsWritten.retained {o : Output} {ls : List Location} {w w' : Workspace}
    (h : o.IsWritten w) (hret : Retains ls w w') (hpath : place o.path ∉ ls) : o.IsWritten w' where
  holds := hret.holds hpath h.holds
  around parent hparent := hret.isAround (h.around parent hparent)

/-- An output is written if the directory around its file can be made and the file can be
written after that. -/
theorem runFrom_write_ok {o : Output} {s s' : Session} :
    o.write.runFrom s = (.ok (), s') ↔ ∃ w₁ w₂,
      (Path.parent? o.path).elim (s.files = w₁)
        (fun parent => s.files.makeDirectories parent = (.ok (), w₁)) ∧
      w₁.write o.path o.contents = .ok w₂ ∧
      ⟨w₂, s.printed ++ ("OK: wrote " ++ o.path ++ "\n")⟩ = s' := by
  have hrest (w₁ : Workspace) : ((do
      Job.change fun w => Failure.within (.writing o.path) .os (w.write o.path o.contents)
      Job.say ("OK: wrote " ++ o.path ++ "\n") : Job Unit).runFrom ⟨w₁, s.printed⟩ =
        (.ok (), s')) ↔ ∃ w₂, w₁.write o.path o.contents = .ok w₂ ∧
          ⟨w₂, s.printed ++ ("OK: wrote " ++ o.path ++ "\n")⟩ = s' := by
    simp only [Job.runFrom_bind, Job.runFrom_change, Job.runFrom_say]
    cases w₁.write o.path o.contents <;> simp [Failure.within]
  unfold write
  cases Path.parent? o.path with
  | none => simpa using hrest s.files
  | some parent =>
    simp only [Option.elim_some]
    rw [Job.runFrom_bind, Job.runFrom_advance]
    rcases s.files.makeDirectories parent with ⟨e | u, w₁⟩
    · simp [Failure.within]
    · simpa [Failure.within] using hrest w₁

/-- An output that was written is in its file, and files elsewhere are as before. -/
theorem write_ok {o : Output} {s s' : Session} (h : o.write.runFrom s = (.ok (), s')) :
    Retains [place o.path] s.files s'.files ∧ o.IsWritten s'.files := by
  obtain ⟨w₁, w₂, hparent, hwrite, rfl⟩ := runFrom_write_ok.mp h
  obtain ⟨hret, hholds⟩ := Workspace.write_ok hwrite
  cases hpath : Path.parent? o.path with
  | none =>
    rw [hpath] at hparent
    obtain rfl := hparent
    exact ⟨hret, hholds, fun _ h => by cases hpath.symm.trans h⟩
  | some parent =>
    rw [hpath] at hparent
    have hmade : Retains [] s.files w₁ := by
      have hspec := (makeDirectoriesTo_spec parent.length s.files parent).1
      rwa [← makeDirectories, hparent] at hspec
    refine ⟨(hmade.mono (List.nil_subset _)).trans hret, hholds, fun parent' h => ?_⟩
    obtain rfl : parent = parent' := Option.some.inj (hpath.symm.trans h)
    exact hret.isAround (isAround_of_makeDirectories (Path.withoutSlashes_parent? hpath) hparent)

/-- Writing what is written changes no file. -/
theorem write_again {o : Output} {s : Session} (h : o.IsWritten s.files) :
    o.write.runFrom s =
      (.ok (), { s with printed := s.printed ++ ("OK: wrote " ++ o.path ++ "\n") }) := by
  refine runFrom_write_ok.mpr ⟨s.files, s.files, ?_, h.holds.write, rfl⟩
  cases hpath : Path.parent? o.path with
  | none => rfl
  | some parent =>
    exact makeDirectories_of_isAround (Path.withoutSlashes_parent? hpath) (h.around parent hpath)

/-- The file of the output is there, whatever it holds. -/
structure HasFile (o : Output) (w : Workspace) : Prop where
  file : w.HasFile o.path
  around : ∀ parent, Path.parent? o.path = some parent → w.IsAround parent

/-- An output whose file is there can be written. -/
theorem exists_write {o : Output} {s : Session} (h : o.HasFile s.files) :
    ∃ s', o.write.runFrom s = (.ok (), s') := by
  obtain ⟨w, hw⟩ := h.file.exists_write o.contents
  refine ⟨_, runFrom_write_ok.mpr ⟨s.files, w, ?_, hw, rfl⟩⟩
  cases hpath : Path.parent? o.path with
  | none => rfl
  | some parent =>
    exact makeDirectories_of_isAround (Path.withoutSlashes_parent? hpath) (h.around parent hpath)

/-- Outputs whose files are there can be written. -/
theorem exists_writeAll : ∀ {os : List Output} {s : Session}, (∀ o ∈ os, o.HasFile s.files) →
    ∃ s', (writeAll os).runFrom s = (.ok (), s')
  | [], s, _ => ⟨s, rfl⟩
  | o :: os, s, h => by
    obtain ⟨ho, hos⟩ := List.forall_mem_cons.mp h
    obtain ⟨s₁, hfirst⟩ := exists_write ho
    obtain ⟨hret, hwritten⟩ := write_ok hfirst
    obtain ⟨s', hrest⟩ := exists_writeAll (s := s₁) fun o' ho' =>
      ⟨(hos o' ho').file.retained hret hwritten.holds,
        fun parent hparent => hret.isAround ((hos o' ho').around parent hparent)⟩
    exact ⟨s', Job.runFrom_bind_ok.mpr ⟨(), s₁, hfirst, hrest⟩⟩

/-- What is printed of outputs that are written. -/
def writtenLines (os : List Output) : String :=
  Text.unlines (os.map fun o => "OK: wrote " ++ o.path)

/-- Outputs in different files are all in them once all were written. -/
theorem writeAll_ok {s' : Session} : ∀ {os : List Output} {s : Session},
    (os.map fun o => place o.path).Nodup → (writeAll os).runFrom s = (.ok (), s') →
    Retains (os.map fun o => place o.path) s.files s'.files ∧ ∀ o ∈ os, o.IsWritten s'.files
  | [], s, _, h => by
    obtain rfl := (Prod.mk.inj h).2
    exact ⟨.refl, nofun⟩
  | o :: os, s, hnodup, h => by
    rw [List.map_cons, List.nodup_cons] at hnodup
    obtain ⟨⟨⟩, s₁, hfirst, hrest⟩ := Job.runFrom_bind_ok.mp h
    obtain ⟨hret, hwritten⟩ := write_ok hfirst
    obtain ⟨hret', hall⟩ := writeAll_ok hnodup.2 hrest
    refine ⟨(hret.mono ?_).trans (hret'.mono ?_), List.forall_mem_cons.mpr ⟨?_, hall⟩⟩
    · exact List.cons_subset_cons _ (List.nil_subset _)
    · exact List.subset_cons_self _ _
    · exact hwritten.retained hret' hnodup.1

/-- Writing once more what is written says so and changes no file. -/
theorem writeAll_again : ∀ {os : List Output} {s : Session}, (∀ o ∈ os, o.IsWritten s.files) →
    (writeAll os).runFrom s = (.ok (), { s with printed := s.printed ++ writtenLines os })
  | [], s, _ => by simp [writeAll, writtenLines, Text.unlines]
  | o :: os, s, h => by
    obtain ⟨ho, hos⟩ := List.forall_mem_cons.mp h
    refine Job.runFrom_bind_ok.mpr ⟨(), _, write_again ho, ?_⟩
    have hrest := writeAll_again (s := ⟨s.files, s.printed ++ ("OK: wrote " ++ o.path ++ "\n")⟩) hos
    refine hrest.trans ?_
    simp only [writtenLines, List.map_cons, Text.unlines, String.append_assoc]

theorem formatAll_eq {s : Session} : ∀ {os : List Output}, (∀ o ∈ os, o.formatter = none) →
    (formatAll os).runFrom s = (.ok (), s)
  | [], _ => rfl
  | o :: os, h => by
    obtain ⟨ho, hos⟩ := List.forall_mem_cons.mp h
    have ih := formatAll_eq (s := s) hos
    rw [formatAll, ho]
    exact ih

/-! ## Checking without formatters -/

/-- What a check says of an output. -/
def verdict (w : Workspace) (o : Output) : String :=
  match w.read o.path with
  | .ok existing =>
    if existing = o.contents then "OK: " ++ o.path ++ " is up to date"
    else "FAIL: " ++ o.path ++ " is outdated"
  | .error _ => "FAIL: " ++ o.path ++ " does not exist"

/-- A check without a formatter compares the output with the text of its file. -/
theorem check_eq {o : Output} {s : Session} {format : Bool}
    (hformat : format = true → o.formatter = none) : (o.check format).runFrom s =
      (.ok (decide (s.files.read o.path = .ok o.contents)),
        ⟨s.files, s.printed ++ (verdict s.files o ++ "\n")⟩) := by
  have hexpected : o.expected format = pure o.contents := by
    cases format with
    | false => rfl
    | true =>
      unfold expected
      rw [hformat rfl]
  rw [check, hexpected, pure_bind, Job.runFrom_bind, Job.runFrom_ofFiles, verdict]
  cases s.files.read o.path with
  | error e =>
    simp only [Job.runFrom_bind, Job.runFrom_say, Job.runFrom_pure, String.append_assoc,
      reduceCtorEq, decide_false]
    rfl
  | ok existing =>
    by_cases h : existing = o.contents
    · simp only [h, if_true, Job.runFrom_bind, Job.runFrom_say, Job.runFrom_pure,
        String.append_assoc, decide_true]
      rfl
    · simp only [h, if_false, Job.runFrom_bind, Job.runFrom_say, Job.runFrom_pure,
        String.append_assoc, Except.ok.injEq, decide_false]
      rfl

/-- A check without formatters compares every output, and changes no file. -/
theorem checkAll_eq {format : Bool} : ∀ {os : List Output} {s : Session},
    (∀ o ∈ os, format = true → o.formatter = none) → (checkAll format os).runFrom s =
      (.ok (decide (∀ o ∈ os, s.files.read o.path = .ok o.contents)),
        ⟨s.files, s.printed ++ Text.unlines (os.map (verdict s.files))⟩)
  | [], s, _ => by simp [checkAll, Text.unlines]
  | o :: os, s, h => by
    obtain ⟨ho, hos⟩ := List.forall_mem_cons.mp h
    refine Job.runFrom_bind_ok.mpr ⟨_, _, check_eq ho, ?_⟩
    refine Job.runFrom_bind_ok.mpr ⟨_, _, checkAll_eq hos, ?_⟩
    simp only [Job.runFrom_pure, List.forall_mem_cons, Bool.decide_and, List.map_cons,
      Text.unlines, String.append_assoc]

/-! ## Checking what was written -/

/-- What a check prints of an output that was written. -/
def checkedLine (w : Workspace) (path : String) : String :=
  if w.isNull path then "FAIL: " ++ path ++ " is outdated" else "OK: " ++ path ++ " is up to date"

theorem verdict_of_isWritten {o : Output} {w : Workspace} (h : o.IsWritten w)
    (hcontents : o.contents ≠ "") : verdict w o = checkedLine w o.path := by
  rw [verdict, h.holds.read, checkedLine]
  cases w.isNull o.path with
  | false => simp
  | true => simp [hcontents.symm]

/-- An output that was written reads as it was, unless its file stays empty. -/
theorem read_iff_of_isWritten {o : Output} {w : Workspace} (h : o.IsWritten w)
    (hcontents : o.contents ≠ "") : w.read o.path = .ok o.contents ↔ w.isNull o.path = false := by
  rw [h.holds.read]
  cases w.isNull o.path with
  | false => simp
  | true => simp [hcontents.symm]

/-- A check of what was written finds it up to date, but for files that stay empty. -/
theorem checkAll_again {format : Bool} {os : List Output} {s : Session}
    (h : ∀ o ∈ os, o.IsWritten s.files) (hformat : ∀ o ∈ os, format = true → o.formatter = none)
    (hcontents : ∀ o ∈ os, o.contents ≠ "") : (checkAll format os).runFrom s =
      (.ok (os.all fun o => !s.files.isNull o.path),
        ⟨s.files, s.printed ++ Text.unlines (os.map fun o => checkedLine s.files o.path)⟩) := by
  have hall : decide (∀ o ∈ os, s.files.read o.path = .ok o.contents) =
      os.all fun o => !s.files.isNull o.path := by
    rw [Bool.eq_iff_iff, decide_eq_true_eq, List.all_eq_true]
    refine forall₂_congr fun o ho => ?_
    rw [read_iff_of_isWritten (h o ho) (hcontents o ho), Bool.not_eq_true']
  have hlines : os.map (verdict s.files) = os.map fun o => checkedLine s.files o.path :=
    List.map_congr_left fun o ho => verdict_of_isWritten (h o ho) (hcontents o ho)
  rw [checkAll_eq hformat, hall, hlines]

end Output

/-! ## Generating again -/

section

variable {config : String} {c : Config} {s s' : Session}

/-- A command that ends with a code had a plan. -/
theorem exists_plan (options : GenerateOptions) {code : Nat}
    (hload : Config.load s.files config = .ok c)
    (h : (generate options config).runFrom s = (.ok code, s')) :
    ∃ os, (options.apply c).plan s.files = .ok os := by
  obtain ⟨os, s₁, hplan, -⟩ := Job.runFrom_bind_ok.mp h
  rw [Job.runFrom_ofFiles, Prod.mk.injEq, Failure.bind_ok] at hplan
  obtain ⟨⟨c', hc', hplan⟩, -⟩ := hplan
  obtain rfl : c = c' := Except.ok.inj (hload.symm.trans hc')
  exact ⟨os, hplan⟩

/-- Without formatters, outputs are checked or written and nothing else happens. -/
theorem runFrom_generate (options : GenerateOptions) {os : List Output}
    (hload : Config.load s.files config = .ok c)
    (hplan : (options.apply c).plan s.files = .ok os)
    (hplain : ∀ o ∈ os, options.format = true → o.formatter = none) :
    (generate options config).runFrom s =
      if options.check then
        (Output.checkAll options.format os >>= fun upToDate =>
          pure (if upToDate then 0 else 1)).runFrom s
      else (Output.writeAll os >>= fun _ => pure 0).runFrom s := by
  have hread : (Config.load s.files config >>= fun c => (options.apply c).plan s.files) = .ok os :=
    Failure.bind_ok.mpr ⟨c, hload, hplan⟩
  unfold generate
  rw [Job.runFrom_bind, Job.runFrom_ofFiles, hread]
  dsimp only
  split
  · rfl
  · rw [Job.runFrom_bind, Job.runFrom_bind]
    rcases (Output.writeAll os).runFrom s with ⟨e | u, s₁⟩
    · rfl
    · dsimp only
      split
      · next hformat =>
        rw [Job.runFrom_bind, Output.formatAll_eq fun o ho => hplain o ho hformat]
      · rfl

/-- What a command that wrote all outputs of a configuration left behind. Another one changes no
file, and a check finds every output up to date, except for a page whose file stays empty. -/
structure Settles (options : GenerateOptions) (config : String) (c : Config) (s s' : Session) :
    Prop where
  checks : (generate { options with check := true } config).runFrom s' =
    (.ok (if c.outputPaths.any s.files.isNull then 1 else 0),
      ⟨s'.files, s'.printed ++ Text.unlines (c.outputPaths.map (Output.checkedLine s.files))⟩)
  repeats : (generate { options with check := false } config).runFrom s' =
    (.ok 0, ⟨s'.files, s'.printed ++ Text.unlines (c.outputPaths.map ("OK: wrote " ++ ·))⟩)
  isNull_page : ∀ path ∈ c.outputPaths, s.files.isNull path = true →
    ∃ t, c.page = some t ∧ t.path = path

/-- From every workspace, where no formatter is run and the outputs are separate files, a command
that wrote them all leaves them as another command and a check would have them, unless a page is
on the null device. -/
theorem settles {options : GenerateOptions} (hload : Config.load s.files config = .ok c)
    (hseparate : c.IsSeparate config)
    (hformat : options.format = true → ∀ t, c.header = some t → t.formatter = none)
    (h : (generate { options with check := false } config).runFrom s = (.ok 0, s')) :
    Settles options config c s s' := by
  obtain ⟨os, hplan⟩ : ∃ os, (options.apply c).plan s.files = .ok os :=
    exists_plan { options with check := false } hload h
  have hpaths := Config.plan_paths hplan
  change _ = c.outputPaths at hpaths
  have hplaces : os.map (fun o => place o.path) = c.outputPaths.map place := by
    rw [← hpaths, List.map_map]
    rfl
  have hplain : ∀ o ∈ os, options.format = true → o.formatter = none := fun o ho hf =>
    (Config.plans_of_mem hplan ho).formatter_eq_none (hformat hf)
  have hcontents : ∀ o ∈ os, o.contents ≠ "" := fun o ho =>
    (Config.plans_of_mem hplan ho).contents_ne_empty
  -- what the first command did
  rw [runFrom_generate { options with check := false } hload hplan hplain,
    if_neg Bool.false_ne_true] at h
  obtain ⟨⟨⟩, s₁, hwrite, hpure⟩ := Job.runFrom_bind_ok.mp h
  obtain rfl : s₁ = s' := (Prod.mk.inj hpure).2
  obtain ⟨hret, hwritten⟩ := Output.writeAll_ok (hplaces ▸ hseparate.nodup) hwrite
  rw [hplaces] at hret
  -- what the next one finds
  have hload' : Config.load s₁.files config = .ok c := by
    obtain ⟨text, written, hread, hrest⟩ := Config.load_ok.mp hload
    exact Config.load_ok.mpr ⟨text, written, hret.read hread hseparate.config, hrest⟩
  have hplan' : (options.apply c).plan s₁.files = .ok os :=
    Config.plan_again hret hseparate.schema hplan fun o ho => (hwritten o ho).holds
  have hnull : s₁.files.isNull = s.files.isNull := funext hret.isNull
  refine ⟨?_, ?_, ?_⟩
  · rw [runFrom_generate { options with check := true } hload' hplan' hplain, if_pos rfl,
      Job.runFrom_bind, Output.checkAll_again hwritten hplain hcontents]
    have hline : Output.checkedLine s₁.files = Output.checkedLine s.files := by
      funext path
      rw [Output.checkedLine, Output.checkedLine, hnull]
    have hall : (os.all fun o => !s₁.files.isNull o.path) = !c.outputPaths.any s.files.isNull := by
      rw [← hpaths, List.any_map, List.not_any_eq_all_not, hnull]
      rfl
    rw [hall, hline, ← hpaths, List.map_map]
    cases (os.map (·.path)).any s.files.isNull <;> rfl
  · rw [runFrom_generate { options with check := false } hload' hplan' hplain,
      if_neg Bool.false_ne_true, Job.runFrom_bind, Output.writeAll_again hwritten,
      Output.writtenLines, ← hpaths, List.map_map]
    rfl
  · intro path hpath hempty
    obtain ⟨o, ho, rfl⟩ := List.mem_map.mp (hpaths ▸ hpath)
    exact (Config.plans_of_mem hplan ho).page_of_isNull hempty

end

/-- The text of a configuration of a header and a page. -/
def deskConfig : String :=
  Text.unlines ["schema: s.yaml", "version: 3.6", "header:", "  path: Settings.h", "  marker: //",
    "html_doc:", "  path: settings.html"]

/-- The configuration that `deskConfig` says. -/
def deskTargets : Config :=
  ⟨"s.yaml", "3.6", 80, some ⟨"Settings.h", "//", Header.defaultGuard, none⟩, none,
    some ⟨"settings.html", "Settings"⟩⟩

/-- The text of a schema of one setting. -/
def deskSchema : String :=
  Text.unlines ["roots:", "- name: Prefs", "  type: Struct", "  fields:", "  - name: Zoom",
    "    type: Int", "    default: 3"]

/-- A header that ends in its marker without a line feed, and an old page. -/
def desk : Workspace :=
  ⟨[(["setgen.yaml"], .file (.text deskConfig)), (["s.yaml"], .file (.text deskSchema)),
    (["Settings.h"], .file (.text "#pragma once\n//")), (["settings.html"], .file (.text "old"))]⟩

/-- The command that writes, without more options. -/
def writing : GenerateOptions := ⟨false, none, none, true⟩

theorem deskSchema_compiles : ∃ schema root header page,
    (Yaml.document? deskSchema).bind Schema.ofNode? = some schema ∧
      schema.resolve = .ok [root] ∧ Header.compile [root.stamp "3.6"] = .ok header ∧
      Docs.Page.render ⟨"Settings", "3.6", 80⟩ (root.stamp "3.6") = .ok page := by
  have h : ((Yaml.document? deskSchema).bind Schema.ofNode?).any (fun schema =>
      schema.resolve.toOption.any fun roots => roots.length == 1 && roots.all fun root =>
        (Header.compile [root.stamp "3.6"]).toBool &&
          (Docs.Page.render ⟨"Settings", "3.6", 80⟩ (root.stamp "3.6")).toBool) = true := by
    decide +kernel
  have of_toBool {ε α : Type} {x : Except ε α} (h : x.toBool = true) : ∃ a, x = .ok a := by
    cases x with
    | error e => cases h
    | ok a => exact ⟨a, rfl⟩
  obtain ⟨schema, hschema, h⟩ := (Option.any_eq_true _ _).mp h
  obtain ⟨roots, hroots, h⟩ := (Option.any_eq_true _ _).mp h
  rw [Bool.and_eq_true, beq_iff_eq] at h
  obtain ⟨root, rfl⟩ := List.length_eq_one_iff.mp h.1
  rw [List.all_cons, List.all_nil, Bool.and_true, Bool.and_eq_true] at h
  obtain ⟨header, hheader⟩ := of_toBool h.2.1
  obtain ⟨page, hpage⟩ := of_toBool h.2.2
  refine ⟨schema, root, header, page, hschema, ?_, hheader, hpage⟩
  cases hresolve : schema.resolve with
  | error e => simp [hresolve, Except.toOption] at hroots
  | ok roots =>
    rw [hresolve] at hroots
    exact congrArg Except.ok (Option.some.inj hroots)

/-- A page can be planned from the schema alone. -/
theorem exists_plan_page {w : Workspace} {path : String}
    (hread : w.read "s.yaml" = .ok deskSchema) :
    ∃ page, (Config.mk "s.yaml" "3.6" 80 none none (some ⟨path, "Settings"⟩)).plan w =
      .ok [⟨path, page, none⟩] := by
  obtain ⟨schema, root, -, page, hschema, hroot, -, hpage⟩ := deskSchema_compiles
  let c : Config := ⟨"s.yaml", "3.6", 80, none, none, some ⟨path, "Settings"⟩⟩
  have hroots : c.roots w = .ok [root.stamp "3.6"] :=
    Config.roots_ok.mpr ⟨deskSchema, schema, [root], hread, hschema, hroot, rfl⟩
  have houtput : c.pageOutput (root.stamp "3.6") ⟨path, "Settings"⟩ = .ok ⟨path, page, none⟩ :=
    Config.pageOutput_ok.mpr ⟨page, hpage, rfl⟩
  exact ⟨page, Config.plan_ok.mpr ⟨_, [], [], [], _, hroots, rfl, rfl,
    Config.forTarget_ok.mpr (.inr ⟨_, _, rfl, houtput, rfl⟩), rfl⟩⟩

/-- The configuration of `desk` is read as `deskTargets`. -/
theorem load_desk : Config.load desk "setgen.yaml" = .ok deskTargets := by
  have hread : desk.read "setgen.yaml" = .ok deskConfig :=
    read_ok.mpr ⟨(locate_eq_follow (by decide)).trans (by decide +kernel), .inl (by decide +kernel)⟩
  have hdocument : (Yaml.document? deskConfig).bind Config.ofNode? = some deskTargets := by
    decide +kernel
  exact Config.load_ok.mpr
    ⟨deskConfig, deskTargets, hread, hdocument, by decide +kernel⟩

/-- The plan of `desk` is a header and a page. -/
theorem plan_desk : ∃ header page, deskTargets.plan desk =
    .ok [⟨"Settings.h", header, none⟩, ⟨"settings.html", page, none⟩] := by
  obtain ⟨schema, root, header, page, hschema, hroot, hheader, hpage⟩ := deskSchema_compiles
  have hread : desk.read "s.yaml" = .ok deskSchema :=
    read_ok.mpr ⟨(locate_eq_follow (by decide)).trans (by decide +kernel), .inl (by decide +kernel)⟩
  have hroots : deskTargets.roots desk = .ok [root.stamp "3.6"] :=
    Config.roots_ok.mpr ⟨deskSchema, schema, [root], hread, hschema, hroot, rfl⟩
  have hsplice : ∃ contents, Config.spliceInto desk "Settings.h" "//"
      (header.render Header.defaultGuard) = .ok contents := by
    have hread : desk.read "Settings.h" = .ok "#pragma once\n//" := read_ok.mpr
      ⟨(locate_eq_follow (by decide)).trans (by decide +kernel), .inl (by decide +kernel)⟩
    have hkept : handWritten? "//".toList (Text.lineSpans "#pragma once\n//".toList) =
        some "#pragma once\n//".toList := by decide
    exact ⟨_, Config.spliceInto_ok.mpr
      ⟨_, hread, congrArg (Option.map fun kept => String.ofList
        (endLine kept ++ (header.render Header.defaultGuard).toList)) hkept⟩⟩
  obtain ⟨contents, hcontents⟩ := hsplice
  have hfirst : Config.headerOutput desk [root.stamp "3.6"]
      ⟨"Settings.h", "//", Header.defaultGuard, none⟩ = .ok ⟨"Settings.h", contents, none⟩ :=
    Config.headerOutput_ok.mpr ⟨header, contents, hheader, hcontents, rfl⟩
  have hsecond : deskTargets.pageOutput (root.stamp "3.6") ⟨"settings.html", "Settings"⟩ =
      .ok ⟨"settings.html", page, none⟩ := Config.pageOutput_ok.mpr ⟨page, hpage, rfl⟩
  exact ⟨contents, page, Config.plan_ok.mpr ⟨_, [], _, [], _, hroots,
    Config.forTarget_ok.mpr (.inr ⟨_, _, rfl, hfirst, rfl⟩), rfl,
    Config.forTarget_ok.mpr (.inr ⟨_, _, rfl, hsecond, rfl⟩), rfl⟩⟩

/-- The header and the page of `desk` are written and settle, though the marker line gets its
line feed only then. -/
theorem settles_desk :
    Config.load desk "setgen.yaml" = .ok deskTargets ∧ deskTargets.IsSeparate "setgen.yaml" ∧
      ∃ s', (generate writing "setgen.yaml").runFrom ⟨desk, ""⟩ = (.ok 0, s') ∧
        Settles writing "setgen.yaml" deskTargets ⟨desk, ""⟩ s' := by
  obtain ⟨header, page, hplan⟩ := plan_desk
  have hseparate : deskTargets.IsSeparate "setgen.yaml" :=
    ⟨by decide +kernel, by decide +kernel, by decide +kernel⟩
  have hfiles : ∀ o ∈ [(⟨"Settings.h", header, none⟩ : Output), ⟨"settings.html", page, none⟩],
      o.HasFile desk := by
    have hheader : desk.HasFile "Settings.h" :=
      ⟨(locate_eq_follow (by decide)).trans (by decide +kernel), _, rfl, nofun⟩
    have hpage : desk.HasFile "settings.html" :=
      ⟨(locate_eq_follow (by decide)).trans (by decide +kernel), _, rfl, nofun⟩
    have haround {path : String} (hpath : Path.parent? path = some "") :
        ∀ parent, Path.parent? path = some parent → desk.IsAround parent :=
      fun parent h => .inl (Option.some.inj (h.symm.trans hpath))
    have hbare : Path.parent? "Settings.h" = some "" ∧ Path.parent? "settings.html" = some "" := by
      decide +kernel
    simp only [List.forall_mem_cons]
    exact ⟨⟨hheader, haround hbare.1⟩, ⟨hpage, haround hbare.2⟩, List.forall_mem_nil _⟩
  obtain ⟨s', hwrite⟩ := Output.exists_writeAll (s := ⟨desk, ""⟩) hfiles
  have hgenerate := runFrom_generate (s := ⟨desk, ""⟩) writing load_desk hplan (by simp)
  rw [if_neg (by decide), Job.runFrom_bind, hwrite] at hgenerate
  refine ⟨load_desk, hseparate, s', hgenerate, settles load_desk hseparate ?_ hgenerate⟩
  rintro - t ht
  rw [← Option.some.inj ht]

/-- The text of a configuration whose page is a file that stays empty. -/
def voidConfig : String :=
  Text.unlines ["schema: s.yaml", "version: 3.6", "html_doc:", "  path: /dev/null"]

/-- The configuration that `voidConfig` says. -/
def voidTarget : Config :=
  ⟨"s.yaml", "3.6", 80, none, none, some ⟨"/dev/null", "Settings"⟩⟩

/-- A system with a file that stays empty. -/
def voidDesk : Workspace :=
  ⟨[(["/"], .directory), (["/", "dev"], .directory), (["/", "dev", "null"], .null),
    (["setgen.yaml"], .file (.text voidConfig)), (["s.yaml"], .file (.text deskSchema))]⟩

theorem load_voidDesk : Config.load voidDesk "setgen.yaml" = .ok voidTarget := by
  have hread : voidDesk.read "setgen.yaml" = .ok voidConfig :=
    read_ok.mpr ⟨(locate_eq_follow (by decide)).trans (by decide +kernel), .inl (by decide +kernel)⟩
  have hdocument : (Yaml.document? voidConfig).bind Config.ofNode? = some voidTarget := by
    decide +kernel
  exact Config.load_ok.mpr
    ⟨voidConfig, voidTarget, hread, hdocument, by decide +kernel⟩

theorem plan_voidDesk : ∃ page, voidTarget.plan voidDesk = .ok [⟨"/dev/null", page, none⟩] :=
  exists_plan_page (read_ok.mpr
    ⟨(locate_eq_follow (by decide)).trans (by decide +kernel), .inl (by decide +kernel)⟩)

theorem isWritten_voidDesk (page : String) :
    (⟨"/dev/null", page, none⟩ : Output).IsWritten voidDesk where
  holds := by
    have hlocate : voidDesk.locate "/dev/null" = .ok (place "/dev/null") :=
      (locate_eq_follow (by decide)).trans (by decide +kernel)
    have hnull : voidDesk.isNull "/dev/null" = true := by decide +kernel
    exact ⟨hlocate, .inr hnull⟩
  around parent hparent := by
    have hdev : Path.parent? "/dev/null" = some "/dev" := by decide +kernel
    obtain rfl : "/dev" = parent := Option.some.inj (hdev.symm.trans hparent)
    have hlocate : voidDesk.locate "/dev" = .ok ["/", "dev"] :=
      (locate_eq_follow (by decide)).trans (by decide +kernel)
    right
    rw [isDirectory, hlocate]
    rfl

/-- A check finds a page on the null device outdated, however often it is written. -/
theorem not_upToDate_void :
    Config.load voidDesk "setgen.yaml" = .ok voidTarget ∧ voidTarget.IsSeparate "setgen.yaml" ∧
      voidTarget.header = none ∧
      ∃ s', (generate writing "setgen.yaml").runFrom ⟨voidDesk, ""⟩ = (.ok 0, s') ∧
        (generate { writing with check := true } "setgen.yaml").runFrom s' =
          (.ok 1, ⟨voidDesk, "OK: wrote /dev/null\nFAIL: /dev/null is outdated\n"⟩) := by
  obtain ⟨page, hplan⟩ := plan_voidDesk
  have hwritten : ∀ o ∈ [(⟨"/dev/null", page, none⟩ : Output)], o.IsWritten voidDesk :=
    List.forall_mem_singleton.mpr (isWritten_voidDesk page)
  have hplain : ∀ o ∈ [(⟨"/dev/null", page, none⟩ : Output)],
      writing.format = true → o.formatter = none := List.forall_mem_singleton.mpr fun _ => rfl
  have hcontents : ∀ o ∈ [(⟨"/dev/null", page, none⟩ : Output)], o.contents ≠ "" := fun o ho =>
    (Config.plans_of_mem hplan ho).contents_ne_empty
  have hseparate : voidTarget.IsSeparate "setgen.yaml" :=
    ⟨by decide +kernel, by decide +kernel, by decide +kernel⟩
  have hwrite := runFrom_generate (s := ⟨voidDesk, ""⟩) writing load_voidDesk hplan hplain
  have hcheck := runFrom_generate (s := ⟨voidDesk, "OK: wrote /dev/null\n"⟩)
    { writing with check := true } load_voidDesk hplan hplain
  rw [if_neg (by decide), Job.runFrom_bind, Output.writeAll_again hwritten] at hwrite
  rw [if_pos rfl, Job.runFrom_bind, Output.checkAll_again hwritten hplain hcontents] at hcheck
  refine ⟨load_voidDesk, hseparate, rfl, ⟨voidDesk, "OK: wrote /dev/null\n"⟩, hwrite,
    hcheck.trans ?_⟩
  have hnull : voidDesk.isNull "/dev/null" = true := by decide +kernel
  simp only [List.all_cons, List.all_nil, List.map_cons, List.map_nil, Output.checkedLine, hnull]
  rfl

end SettingsCompiler
