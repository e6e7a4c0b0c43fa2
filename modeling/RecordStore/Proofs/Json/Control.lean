import RecordStore.Proofs.Json.RoundTrip

/-!
# JSON is written without control characters

Strings have their control characters escaped and nothing is written between tokens, so that the
text of a value is a single line, whatever the strings in it are.

* `NoControl`: that no byte of a text is a control character.
* `noControl_writeString`: so it is with any string.
* `noControl_write`: **and with every standard value.**
-/

namespace RecordStore.Json

/-- That no byte is a control character. -/
def NoControl (bytes : List UInt8) : Prop := ∀ b ∈ bytes, 0x20 ≤ b

namespace NoControl

instance (bytes : List UInt8) : Decidable (NoControl bytes) := List.decidableBAll _ _

theorem append {xs ys : List UInt8} (hx : NoControl xs) (hy : NoControl ys) :
    NoControl (xs ++ ys) :=
  List.forall_mem_append.mpr ⟨hx, hy⟩

theorem not_mem {bytes : List UInt8} (h : NoControl bytes) {b : UInt8} (hb : b < 0x20) :
    b ∉ bytes :=
  fun hm => absurd hb (UInt8.not_lt.mpr (h b hm))

end NoControl

/-! ## Strings -/

theorem noControl_unitEscape (u : Nat) : NoControl (unitEscape u) := by
  have hdigit : ∀ d : Fin 16, 0x20 ≤ (Text.hexChar d).toUInt8 := by decide
  refine .append (by decide) fun b hb => ?_
  simp only [List.mem_cons, List.not_mem_nil, or_false] at hb
  rcases hb with rfl | rfl | rfl | rfl
  all_goals exact hdigit _

theorem noControl_escapeByte (b : UInt8) : NoControl (escapeByte b) := by
  unfold escapeByte
  split_ifs with _ _ _ _ _ _ _ h
  iterate 7 decide
  · exact noControl_unitEscape _
  · exact List.forall_mem_singleton.mpr (UInt8.not_lt.mp h)

theorem noControl_escape (p : Piece) : NoControl (escape p) := by
  cases p with
  | byte b => exact noControl_escapeByte b
  | unit u => exact noControl_unitEscape _

/-- A string is written without control characters, whatever it holds. -/
theorem noControl_writeString (pieces : List Piece) : NoControl (writeString pieces) := by
  refine .append (by decide) (.append (fun b hb => ?_) (by decide))
  obtain ⟨p, -, hb⟩ := List.mem_flatMap.mp hb
  exact noControl_escape p b hb

/-! ## Values -/

theorem noControl_writeNumeral (n : Int) : NoControl (writeNumeral (.ofInt n)) := by
  have hdigit : ∀ d : Fin 10, (0x20 : UInt8) ≤ .ofNat (d + 48) := by decide
  obtain ⟨ds, -, hds, hw⟩ := exists_writeNumeral n
  rw [hw]
  refine .append (by split <;> decide) fun b hb => ?_
  obtain ⟨d, hd, rfl⟩ := List.mem_map.mp hb
  exact hdigit ⟨d, hds.lt d hd⟩

theorem noControl_writeItems {items : List Json} (h : ∀ v ∈ items, NoControl (write v)) :
    NoControl (writeItems items) := by
  induction items with
  | nil => exact fun _ hb => nomatch hb
  | cons v items ih =>
    have hv := h v List.mem_cons_self
    cases items with
    | nil => rwa [writeItems]
    | cons w items =>
      rw [writeItems]
      exact hv.append (.append (by decide) (ih fun u hu => h u (List.mem_cons_of_mem v hu)))

theorem noControl_writeFields {fields : List (List Piece × Json)}
    (h : ∀ f ∈ fields, NoControl (write f.2)) : NoControl (writeFields fields) := by
  induction fields with
  | nil => exact fun _ hb => nomatch hb
  | cons f fields ih =>
    have hn := noControl_writeString f.1
    have hv := h f List.mem_cons_self
    cases fields with
    | nil =>
      rw [writeFields]
      exact hn.append (.append (by decide) hv)
    | cons g fields =>
      rw [writeFields]
      exact hn.append (.append (by decide) (hv.append (.append (by decide)
        (ih fun e he => h e (List.mem_cons_of_mem f he)))))

/-- **A standard value is written without control characters.** -/
theorem noControl_write {v : Json} (h : v.Standard) : NoControl (write v) := by
  induction h with
  | null => decide
  | bool value => cases value <;> decide
  | number n =>
    rw [write]
    exact noControl_writeNumeral n
  | @string pieces _ =>
    rw [write]
    exact noControl_writeString pieces
  | array _ ih =>
    rw [write]
    exact .append (by decide) (.append (noControl_writeItems ih) (by decide))
  | object _ _ ih =>
    rw [write]
    exact .append (by decide) (.append (noControl_writeFields ih) (by decide))

end RecordStore.Json
