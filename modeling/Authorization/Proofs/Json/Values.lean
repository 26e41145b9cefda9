import Authorization.Proofs.Json.Text

namespace Authorization.Json

/-- A value all of whose numbers are integers and all of whose texts are well-formed. -/
inductive Plain : Json → Prop where
  | null : Plain .null
  | bool (b : Bool) : Plain (.bool b)
  | integer (n : Int) : Plain (.integer n)
  | string (text : String) : Plain (.string text)
  | array {items : List Json} (plain : ∀ item ∈ items, Plain item) : Plain (.array items)
  | object {members : List (String × Json)} (plain : ∀ m ∈ members, Plain m.2) :
    Plain (.object members)

section Starts

/-- A character that a value may start with. -/
def Starts (c : Char) : Prop := isSpace c = false ∧ c ≠ ']'

theorem skipSpace_starts {c : Char} (starts : Starts c) (cs : List Char) :
    skipSpace (c :: cs) = c :: cs :=
  List.dropWhile_cons_of_neg (Bool.eq_false_iff.1 starts.1)

theorem decimal_eq_cons (n : Int) :
    ∃ c cs, decimal n = c :: cs ∧ (c = '-' ∨ c.isDigit = true) := by
  cases n with
  | ofNat n =>
    cases digits : Nat.toDigits 10 n with
    | nil => exact (Nat.toDigits_ne_nil digits).elim
    | cons c cs => exact ⟨c, cs, digits, .inr (digit_of_toDigits digits)⟩
  | negSucc n => exact ⟨'-', _, rfl, .inl rfl⟩

theorem starts_number {c : Char} (number : c = '-' ∨ c.isDigit = true) : Starts c := by
  rcases number with rfl | digit
  · exact ⟨rfl, by decide⟩
  · have other {d : Char} (no : d.isDigit = false) : c ≠ d := by
      rintro rfl
      rw [digit] at no
      cases no
    have space : c ≠ ' ' := other rfl
    have newline : c ≠ '\n' := other rfl
    have tab : c ≠ '\t' := other rfl
    have carriage : c ≠ '\r' := other rfl
    exact ⟨by simp [isSpace, space, newline, tab, carriage], other rfl⟩

theorem Plain.starts {v : Json} (plain : Plain v) : ∃ c cs, write v = c :: cs ∧ Starts c := by
  cases plain with
  | null => exact ⟨'n', _, rfl, rfl, by decide⟩
  | bool b => cases b <;> exact ⟨_, _, rfl, rfl, by decide⟩
  | integer n =>
    obtain ⟨c, cs, same, number⟩ := decimal_eq_cons n
    exact ⟨c, cs, same, starts_number number⟩
  | string text => exact ⟨'"', _, rfl, rfl, by decide⟩
  | @array items _ => cases items <;> exact ⟨'[', _, rfl, rfl, by decide⟩
  | @object members _ => cases members <;> exact ⟨'\x7b', _, rfl, rfl, by decide⟩

theorem ends_writeItems (items : List Json) (rest : List Char) : Ends (writeItems items ++ rest) := by
  cases items <;> rintro _ ⟨⟩ <;> decide

theorem ends_writeMembers (members : List (String × Json)) (rest : List Char) :
    Ends (writeMembers members ++ rest) := by
  cases members <;> rintro _ ⟨⟩ <;> decide

end Starts

/-- The reader takes the text of a value off the front of a longer text. -/
def ReadsBack (v : Json) : Prop :=
  ∀ fuel rest, (write v).length ≤ fuel → Ends rest →
    readValue fuel (write v ++ rest) = some (v, rest)

section Steps

variable (fuel : Nat)

theorem readValue_number {c : Char} (number : c = '-' ∨ c.isDigit = true) (cs : List Char) :
    readValue (fuel + 1) (c :: cs) = readNumber (c :: cs) := by
  rw [readValue, skipSpace_starts (starts_number number)]
  split <;> simp_all

theorem readValue_quote (text : String) (rest : List Char) :
    readValue (fuel + 1) (quote text ++ rest) = some (.string text, rest) := by
  have step : readValue (fuel + 1) (quote text ++ rest) =
      (readString (text.toList.flatMap escape ++ ['"'] ++ rest)).bind fun read =>
        some (ofString read.1, read.2) := rfl
  rw [step, List.append_assoc, List.singleton_append, readString_quoted]
  rfl

theorem readValue_array {c : Char} (starts : Starts c) (cs : List Char) :
    readValue (fuel + 1) ('[' :: c :: cs) =
      (readValue fuel (c :: cs)).bind fun first => (readItems fuel first.2).bind fun others =>
        some (.array (first.1 :: others.1), others.2) := by
  have outer : skipSpace ('[' :: c :: cs) = '[' :: c :: cs := rfl
  rw [readValue, outer]
  simp only [skipSpace_starts starts]
  split
  · rename_i same
    exact (starts.2 (List.cons.inj same).1).elim
  · rfl

theorem readItems_comma (cs : List Char) :
    readItems (fuel + 1) (',' :: cs) =
      (readValue fuel cs).bind fun first => (readItems fuel first.2).bind fun others =>
        some (first.1 :: others.1, others.2) := rfl

theorem readMember_quote (name : String) (cs : List Char) :
    readMember (fuel + 1) (quote name ++ ':' :: cs) =
      (readValue fuel cs).bind fun value => some ((some name, value.1), value.2) := by
  show (readString (name.toList.flatMap escape ++ ['"'] ++ ':' :: cs)).bind _ = _
  rw [List.append_assoc, List.singleton_append, readString_quoted]
  rfl

theorem readValue_object (name : String) (cs : List Char) :
    readValue (fuel + 1) ('\x7b' :: (quote name ++ cs)) =
      (readMember fuel (quote name ++ cs)).bind fun first =>
        (readMembers fuel first.2).bind fun others =>
          some (ofMembers (first.1 :: others.1), others.2) := rfl

theorem readMembers_comma (cs : List Char) :
    readMembers (fuel + 1) (',' :: cs) =
      (readMember fuel cs).bind fun first => (readMembers fuel first.2).bind fun others =>
        some (first.1 :: others.1, others.2) := rfl

end Steps

variable {fuel : Nat} {rest : List Char}

theorem readItems_write {items : List Json} (back : ∀ item ∈ items, ReadsBack item)
    (enough : (writeItems items).length ≤ fuel) :
    readItems fuel (writeItems items ++ rest) = some (items, rest) := by
  induction items generalizing fuel with
  | nil =>
    obtain ⟨fuel, rfl⟩ := Nat.exists_eq_succ_of_ne_zero (Nat.ne_of_gt enough)
    rfl
  | cons item items ih =>
    obtain ⟨first, others⟩ := List.forall_mem_cons.1 back
    rw [writeItems, List.length_cons, List.length_append] at enough
    obtain ⟨fuel, rfl⟩ : ∃ n, fuel = n + 1 := ⟨fuel - 1, by omega⟩
    rw [writeItems, List.cons_append, List.append_assoc, readItems_comma,
      first fuel _ (by omega) (ends_writeItems items rest), Option.bind_some, ih others (by omega)]
    rfl

theorem readMember_write {name : String} {v : Json} (back : ReadsBack v)
    (enough : (write v).length < fuel) (ends : Ends rest) :
    readMember fuel (quote name ++ ':' :: (write v ++ rest)) = some ((some name, v), rest) := by
  obtain ⟨fuel, rfl⟩ : ∃ n, fuel = n + 1 := ⟨fuel - 1, by omega⟩
  rw [readMember_quote, back fuel rest (Nat.le_of_lt_succ enough) ends]
  rfl

theorem readMembers_write {members : List (String × Json)} (back : ∀ m ∈ members, ReadsBack m.2)
    (enough : (writeMembers members).length ≤ fuel) :
    readMembers fuel (writeMembers members ++ rest) =
      some (members.map fun m => (some m.1, m.2), rest) := by
  induction members generalizing fuel with
  | nil =>
    obtain ⟨fuel, rfl⟩ := Nat.exists_eq_succ_of_ne_zero (Nat.ne_of_gt enough)
    rfl
  | cons m members ih =>
    obtain ⟨first, others⟩ := List.forall_mem_cons.1 back
    rw [writeMembers, List.length_cons, List.length_append, List.length_cons,
      List.length_append] at enough
    obtain ⟨fuel, rfl⟩ : ∃ n, fuel = n + 1 := ⟨fuel - 1, by omega⟩
    rw [writeMembers, List.cons_append, List.append_assoc, List.cons_append, List.append_assoc,
      readMembers_comma, readMember_write first (by omega) (ends_writeMembers members rest),
      Option.bind_some, ih others (by omega)]
    rfl

theorem ofMembers_map (members : List (String × Json)) :
    ofMembers (members.map fun m => (some m.1, m.2)) = .object members := by
  have named : (members.map fun m => (some m.1, m.2)).mapM
      (fun m : Option String × Json => m.1.map fun name => (name, m.2)) = some members := by
    induction members with
    | nil => rfl
    | cons m members ih =>
      rw [List.map_cons, List.mapM_cons, ih]
      rfl
  rw [ofMembers, named]

theorem Plain.readsBack_of {v : Json} (plain : Plain v)
    (read : ∀ fuel rest, (write v).length ≤ fuel + 1 → Ends rest →
      readValue (fuel + 1) (write v ++ rest) = some (v, rest)) : ReadsBack v := by
  intro fuel rest enough ends
  obtain ⟨c, cs, same, _⟩ := plain.starts
  obtain ⟨fuel, rfl⟩ : ∃ n, fuel = n + 1 := by
    rw [same, List.length_cons] at enough
    exact ⟨fuel - 1, by omega⟩
  exact read fuel rest enough ends

/-- By induction on the value: fuel for the characters of a text is fuel for those of its parts. -/
theorem Plain.readsBack {v : Json} (plain : Plain v) : ReadsBack v := by
  induction plain with
  | null => exact Plain.null.readsBack_of fun _ _ _ _ => rfl
  | bool b => exact (Plain.bool b).readsBack_of fun _ _ _ _ => by cases b <;> rfl
  | integer n =>
    refine (Plain.integer n).readsBack_of fun fuel rest _ ends => ?_
    obtain ⟨c, cs, same, number⟩ := decimal_eq_cons n
    rw [write, same, List.cons_append, readValue_number fuel number, ← List.cons_append, ← same,
      readNumber_decimal n ends]
  | string text =>
    exact (Plain.string text).readsBack_of fun fuel rest _ _ => readValue_quote fuel text rest
  | @array items plain ih =>
    refine (Plain.array plain).readsBack_of fun fuel rest enough _ => ?_
    cases items with
    | nil => rfl
    | cons item items =>
      obtain ⟨first, others⟩ := List.forall_mem_cons.1 ih
      obtain ⟨c, cs, same, starts⟩ := (plain item List.mem_cons_self).starts
      rw [write, List.length_cons, List.length_append] at enough
      rw [write, List.cons_append, List.append_assoc, same, List.cons_append,
        readValue_array fuel starts, ← List.cons_append, ← same,
        first fuel _ (by omega) (ends_writeItems items rest), Option.bind_some,
        readItems_write others (by omega)]
      rfl
  | @object members plain ih =>
    refine (Plain.object plain).readsBack_of fun fuel rest enough _ => ?_
    cases members with
    | nil => rfl
    | cons m members =>
      obtain ⟨first, others⟩ := List.forall_mem_cons.1 ih
      rw [write, List.length_cons, List.length_append, List.length_cons,
        List.length_append] at enough
      rw [write, List.cons_append, List.append_assoc, List.cons_append, List.append_assoc,
        readValue_object, readMember_write first (by omega) (ends_writeMembers members rest),
        Option.bind_some, readMembers_write others (by omega)]
      exact congrArg (fun v => some (v, rest)) (ofMembers_map (m :: members))

/-- Reading undoes writing. -/
theorem read?_write {v : Json} (plain : Plain v) : read? (write v) = some v := by
  have back := plain.readsBack ((write v).length + 1) [] (Nat.le_succ _) nofun
  rw [List.append_nil] at back
  rw [read?, back]
  rfl

end Authorization.Json
