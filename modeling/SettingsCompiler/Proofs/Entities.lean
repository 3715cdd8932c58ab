import SettingsCompiler.Proofs.Provenance

/-!
# Texts and their entities

Reading entities takes escaping back (`decode_flatMap_escapeChar`). Escaping takes reading back
only for texts that could have been escaped, those without a delimiter in which every `&` begins
an entity (`flatMap_escapeChar_decode`) : in such a text the reader stops at the ampersands and
finds an entity at each, so nothing that it passes over is spelled otherwise. Hence a text has
been escaped exactly if it is harmless, and from one text only (`escapesFaithfully`).
-/

namespace SettingsCompiler

namespace Docs

open Text

/-! ## Entities spelled again -/

/-- An entity is the spelling of a character, and is read as it whatever comes behind. -/
theorem exists_char_of_mem_entities {e : String} (he : e ∈ entities) :
    ∃ d, escapeChar d = e.toList ∧ ∀ v, decode (e.toList ++ v) = d :: decode v := by
  simp only [entities, List.mem_cons, List.not_mem_nil, or_false] at he
  rcases he with rfl | rfl | rfl | rfl
  · exact ⟨'&', rfl, fun _ => rfl⟩
  · exact ⟨'<', rfl, fun _ => rfl⟩
  · exact ⟨'>', rfl, fun _ => rfl⟩
  · exact ⟨'\x22', rfl, fun _ => rfl⟩

theorem isOrdinary_of_isDelimiter {c : Char} (hamp : c ≠ '&') (h : isDelimiter c = false) :
    isOrdinary c = true := by
  rcases escapeChar_cases c with rfl | rfl | rfl | rfl | hc
  · exact absurd rfl hamp
  · cases h
  · cases h
  · cases h
  · exact hc

/-- What is read from a text that could have been escaped is escaped to the text. -/
theorem flatMap_escapeChar_decode : ∀ {cs : List Char}, (∀ c ∈ cs, isDelimiter c = false) →
    Guarded cs → (decode cs).flatMap escapeChar = cs
  | [], _, _ => rfl
  | c :: cs, hdelim, hguard => by
    by_cases hc : c = '&'
    · obtain ⟨e, he, rest, hrest⟩ := hguard.2.1 hc
      obtain ⟨d, hd, hread⟩ := exists_char_of_mem_entities he
      have hshorter : rest.length < cs.length + 1 := by
        obtain ⟨tail, htail, -⟩ := leads_of_mem_entities he
        rw [htail, List.cons_append] at hrest
        rw [← (List.cons.inj hrest).2, List.length_append]
        omega
      rw [← hrest] at hdelim hguard ⊢
      have ih := flatMap_escapeChar_decode (fun c hc => hdelim c (List.mem_append_right _ hc))
        hguard.of_append
      rw [hread, List.flatMap_cons, hd, ih]
    · obtain ⟨hdelimc, hdelim⟩ := List.forall_mem_cons.mp hdelim
      have ih := flatMap_escapeChar_decode hdelim hguard.2.2
      rw [decode_cons hc, List.flatMap_cons, ih,
        escapeChar_of_isOrdinary (isOrdinary_of_isDelimiter hc hdelimc), List.singleton_append]
termination_by cs => cs.length

/-- What was escaped has no delimiter left, and every ampersand in it begins an entity. -/
theorem isHarmless_escape (s : String) : IsHarmless (escape s) := by
  rw [IsHarmless, toList_escape]
  exact ⟨isDelimiter_of_mem_flatMap_escapeChar, guarded_flatMap_escapeChar _⟩

/-- A harmless text is the spelling of what is read from it. -/
theorem escape_decode {t : String} (h : IsHarmless t) :
    escape (String.ofList (decode t.toList)) = t := by
  rw [escape, String.toList_ofList, flatMap_escapeChar_decode h.1 h.2, String.ofList_toList]

/-! ## Escaping -/

/-- What escaping does to a text. -/
structure EscapesFaithfully (s : String) : Prop where
  /-- Reading the entities gives the text back, entities that it had itself among them. -/
  decoded : decode (escape s).toList = s.toList
  injective : ∀ t, escape t = escape s → t = s
  undelimited : ∀ c ∈ (escape s).toList, c ≠ '<' ∧ c ≠ '>' ∧ c ≠ '\x22'
  ampersands : ∀ rest, '&' :: rest <:+ (escape s).toList → BeginsEntity ('&' :: rest)
  trimmed : String.ofList (trimEnd (escape s).toList) = escape (String.ofList (trimEnd s.toList))
  /-- A text with these properties has been escaped already. -/
  harmless_iff : IsHarmless s ↔ ∃ t, escape t = s

/-- Escaping loses nothing of any text, and what it gives are exactly the harmless texts. -/
theorem escapesFaithfully (s : String) : EscapesFaithfully s where
  decoded := by rw [toList_escape, decode_flatMap_escapeChar]
  injective t h := by
    have hread := congrArg (fun text => decode text.toList) h
    simp only [toList_escape, decode_flatMap_escapeChar] at hread
    exact String.toList_injective hread
  undelimited c hc := by
    have hdelim := (isHarmless_escape s).1 c hc
    simpa [isDelimiter, and_assoc] using hdelim
  ampersands rest h := by
    obtain ⟨before, hsplit⟩ := h
    have hguard := (isHarmless_escape s).2
    rw [← hsplit] at hguard
    exact hguard.of_append.2.1 rfl
  trimmed := by
    rw [toList_escape, trimEnd_flatMap_escapeChar, escape, String.toList_ofList]
  harmless_iff := by
    constructor
    · exact fun h => ⟨_, escape_decode h⟩
    · rintro ⟨t, rfl⟩
      exact isHarmless_escape t

/-- A text that looks like an entity survives. -/
example : escape "&lt; &lt" = "&amp;lt; &amp;lt" ∧
    decode (escape "&lt; &lt").toList = "&lt; &lt".toList := by decide

end Docs
end SettingsCompiler
