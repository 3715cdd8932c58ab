import SettingsCompiler.Docs.Html
import SettingsCompiler.Docs.Plain
import SettingsCompiler.Proofs.Progress

/-!
# Settings that leave no trace in documentation

Documentation passes over internal settings and comment entries. `prune` takes them out of a
tree at every depth, those on the line of a compact setting included, and what is left has
none of them (`bare_prune`). The outline of the pruned tree is the outline of the tree, its
boundaries between groups and its faults included (`outline_prune`) : nothing in an outline
depends on how many settings were passed over, or where.

So trees with the same pruned tree are documented alike, in either style and at every width
(`documentsPruned`).
-/

namespace SettingsCompiler.Setting

open Docs

/-! ## Pruned trees -/

mutual

/-- The setting without internal settings and comment entries inside it, at any depth. -/
def prune : Setting → Setting
  | leaf info value => leaf info value
  | group info children => group info (pruneAll children)

/-- The documented settings of a list, pruned. -/
def pruneAll : List Setting → List Setting
  | [] => []
  | c :: cs => if c.isDocumented then c.prune :: pruneAll cs else pruneAll cs

end

@[simp] theorem info_prune (s : Setting) : s.prune.info = s.info := by
  cases s <;> rfl

@[simp] theorem isDocumented_prune (s : Setting) : s.prune.isDocumented = s.isDocumented := by
  simp only [isDocumented, isComment, info_prune]

@[simp] theorem children_prune (s : Setting) : s.prune.children = pruneAll s.children := by
  cases s <;> rfl

theorem pruneAll_eq : ∀ cs : List Setting, pruneAll cs = (cs.filter isDocumented).map prune
  | [] => rfl
  | c :: cs => by
    have ih := pruneAll_eq cs
    cases hdoc : c.isDocumented <;> simp [pruneAll, hdoc, ih]

/-- No setting inside the tree is internal or a comment entry. -/
def IsBare (root : Setting) : Prop :=
  ∀ x, Within root x → ∀ c ∈ x.children, c.isDocumented = true

mutual

/-- Whatever stands in a pruned tree has been pruned. -/
theorem within_prune {x : Setting} : ∀ s : Setting, Within s.prune x → ∃ y : Setting, x = y.prune
  | leaf info value, h => by
    rcases within_iff.mp h with rfl | ⟨c, hc, -⟩
    · exact ⟨leaf info value, rfl⟩
    · cases hc
  | group info cs, h => by
    rcases within_iff.mp h with rfl | ⟨c, hc, hx⟩
    · exact ⟨group info cs, rfl⟩
    · exact within_pruneAll cs hc hx

theorem within_pruneAll {x c : Setting} : ∀ cs : List Setting, c ∈ pruneAll cs → Within c x →
    ∃ y : Setting, x = y.prune
  | [], hc, _ => by cases hc
  | d :: ds, hc, hx => by
    rw [pruneAll] at hc
    split at hc
    · rcases List.mem_cons.mp hc with rfl | hc
      · exact within_prune d hx
      · exact within_pruneAll ds hc hx
    · exact within_pruneAll ds hc hx

end

/-- Nothing is left to prune in a pruned tree. -/
theorem bare_prune (root : Setting) : root.prune.IsBare := by
  intro x hx c hc
  obtain ⟨y, rfl⟩ := within_prune root hx
  rw [children_prune, pruneAll_eq] at hc
  obtain ⟨d, hd, rfl⟩ := List.mem_map.mp hc
  simpa using (List.mem_filter.mp hd).2

/-! ## The outline of a pruned tree -/

/-- The list of a composite is pruned, and one that is missing stays missing. -/
theorem fields_prune (s : Setting) : s.prune.fields = s.fields.map pruneAll := by
  cases s with
  | leaf info value => rfl
  | group info cs =>
    rw [prune, fields, fields]
    cases info.kind.isComposite <;> rfl

theorem defaultText_prune (s : Setting) : s.prune.defaultText = s.defaultText := by
  cases s <;> rfl

theorem docText_prune (s : Setting) : s.prune.docText = s.docText := by
  simp only [docText, info_prune]

theorem commentChunks_prune (depth : Nat) (path : String) (s : Setting) :
    commentChunks depth path s.prune = commentChunks depth path s := by
  rw [commentChunks, commentChunks, docText_prune]

/-- The settings passed over put nothing on the line of a compact setting. -/
theorem shownDefaults_pruneAll : ∀ cs : List Setting,
    shownDefaults (pruneAll cs) = shownDefaults cs
  | [] => rfl
  | c :: cs => by
    have ih := shownDefaults_pruneAll cs
    cases hdoc : c.isDocumented with
    | false => rw [pruneAll, shownDefaults, hdoc, if_neg Bool.false_ne_true,
        if_neg Bool.false_ne_true, ih]
    | true => rw [pruneAll, shownDefaults, hdoc, if_pos rfl, if_pos rfl, shownDefaults,
        isDocumented_prune, hdoc, if_pos rfl, defaultText_prune, ih]

/-- The line of a compact setting is the same when it is pruned. -/
theorem compactText_prune (s : Setting) : s.prune.compactText = s.compactText := by
  rw [compactText, compactText, fields_prune]
  cases s.fields with
  | error e => rfl
  | ok cs => simp only [Except.map, shownDefaults_pruneAll]

mutual

/-- A setting has the same chunks when it is pruned. -/
theorem bodyChunks_prune : ∀ (s : Setting) (depth : Nat) (path : String),
    bodyChunks depth path s.prune = bodyChunks depth path s
  | leaf info value, _, _ => rfl
  | group info cs, depth, path => by
    have inside (depth : Nat) := listChunks_pruneAll depth path false cs
    have compact := compactText_prune (group info cs)
    rw [prune] at compact
    rw [prune, bodyChunks, bodyChunks, inside, inside, compact]
    rfl

/-- The settings passed over do not count among the neighbours of those that are shown, so the
groups begin and end where they did. -/
theorem listChunks_pruneAll : ∀ (depth : Nat) (path : String) (expert : Bool)
    (cs : List Setting), listChunks depth path expert (pruneAll cs) =
      listChunks depth path expert cs
  | _, _, _, [] => rfl
  | depth, path, expert, c :: cs => by
    have ih (expert : Bool) := listChunks_pruneAll depth path expert cs
    cases hdoc : c.isDocumented with
    | false => rw [pruneAll, listChunks, hdoc, if_neg Bool.false_ne_true,
        if_neg Bool.false_ne_true, ih]
    | true =>
      have body := bodyChunks_prune c depth (childPath path c.info.name)
      rw [pruneAll, listChunks, hdoc, if_pos rfl, if_pos rfl, listChunks, isDocumented_prune,
        hdoc, if_pos rfl]
      simp only [info_prune, body, ih, commentChunks_prune]

end

/-- A root has the same outline when it is pruned, or the same fault. -/
theorem outline_prune (root : Setting) : root.prune.outline = root.outline := by
  rw [outline, outline, fields_prune]
  cases root.fields with
  | error e => rfl
  | ok cs => exact listChunks_pruneAll 0 "" false cs

/-! ## Documentation -/

/-- The documentation of a root, or the fault, is that of the pruned root, and so is that of
any other root which differs from it in internal settings and comment entries alone. -/
structure DocumentsPruned (root : Setting) : Prop where
  bare : root.prune.IsBare
  text : ∀ width, renderText width root = renderText width root.prune
  html : ∀ width, renderHtml width root = renderHtml width root.prune
  alike : ∀ other : Setting, other.prune = root.prune → ∀ width,
    renderText width other = renderText width root ∧
      renderHtml width other = renderHtml width root

theorem render_prune (style : Style) (width : Nat) (root : Setting) :
    render style width root = render style width root.prune := by
  rw [render, render, outline_prune]

/-- The documentation of every root tells nothing of its internal settings and comment entries,
in text and in HTML and at every width. -/
theorem documentsPruned (root : Setting) : DocumentsPruned root where
  bare := bare_prune root
  text width := render_prune .plain width root
  html width := render_prune .html width root
  alike other h width := by
    have same (style : Style) : render style width other = render style width root := by
      rw [render_prune style width other, h, ← render_prune style width root]
    exact ⟨same .plain, same .html⟩

end SettingsCompiler.Setting
