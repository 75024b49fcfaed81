import StateEngine.Json.Reader
import StateEngine.Json.Writer

/-!
# Texts of values

A text is read in two steps. Its characters make tokens, and the tokens make a value. The writer has no such steps,
but its texts have the tokens of their values, and a value is read from its tokens inside of whatever is open.

* `Json.tokens`: the tokens of a value.
* `Lexer.run?_escape`: **a character of a string is read back**, whether it is escaped or not.
* `Json.tokens?_text`: the tokens of a text.
* `Reader.run?_tokens`: **a value is read from its tokens**.
* `Json.ofText?_text`: **a value is read from its text**, if it has no numbers inside and nests no deeper than the
  reader goes.
-/

namespace StateEngine

/-! ## Tokens of a value -/

namespace Json

mutual

/-- The tokens of the compact text. -/
def tokens : Json → List Token
  | null => [.scalar null]
  | bool b => [.scalar (bool b)]
  | number n => [.scalar (number n)]
  | string s => [.string s]
  | array [] => [.openArray, .closeArray]
  | array (v :: rest) => .openArray :: (v.tokens ++ itemTokens rest)
  | object [] => [.openObject, .closeObject]
  | object ((k, v) :: rest) => .openObject :: .string k :: .colon :: (v.tokens ++ memberTokens rest)

/-- The tokens of the items after the first, and of the bracket that closes them. -/
def itemTokens : List Json → List Token
  | [] => [.closeArray]
  | v :: rest => .comma :: (v.tokens ++ itemTokens rest)

/-- The tokens of the members after the first, and of the brace that closes them. -/
def memberTokens : List (String × Json) → List Token
  | [] => [.closeObject]
  | (k, v) :: rest => .comma :: .string k :: .colon :: (v.tokens ++ memberTokens rest)

end

mutual

/-- Whether a value has no numbers inside, no object with two members of one key, and at most so many containers in
one another. -/
def Plain (room : Nat) : Json → Prop
  | number _ => False
  | array items => 0 < room ∧ AllPlain (room - 1) items
  | object members => 0 < room ∧ (members.map (·.1)).Nodup ∧ MembersPlain (room - 1) members
  | _ => True

/-- Every item is plain. -/
def AllPlain (room : Nat) : List Json → Prop
  | [] => True
  | v :: rest => v.Plain room ∧ AllPlain room rest

/-- Every member's value is plain. -/
def MembersPlain (room : Nat) : List (String × Json) → Prop
  | [] => True
  | (_, v) :: rest => v.Plain room ∧ MembersPlain room rest

end

end Json

/-! ## From characters to tokens -/

namespace Lexer

variable {found : List Token} {content chars more rest : List Char} {tokens : List Token} {c : Char}

/-- **A digit of an escape** is read as the number that it writes. -/
theorem hexDigit?_hexDigit {n : Nat} (h : n < 16) : hexDigit? (Json.hexDigit n) = some n :=
  (by decide : ∀ n < 16, hexDigit? (Json.hexDigit n) = some n) n h

/-- **A character of a string is read back**, whether it is escaped or not. -/
theorem run?_escape (c : Char) :
    run? found (.string content) (Json.escape c ++ rest) = run? found (.string (c :: content)) rest := by
  unfold Json.escape
  split
  all_goals try rfl
  rename_i hquote hbackslash _ _ _ _ _
  split
  · rename_i hcontrol
    have hzero : hexDigit? '0' = some 0 := by decide
    have hhigh := hexDigit?_hexDigit (show c.toNat / 16 < 16 by omega)
    have hlow := hexDigit?_hexDigit (show c.toNat % 16 < 16 by omega)
    have hcode : c.toNat / 16 * 16 + c.toNat % 16 = c.toNat := by omega
    have hcomplete : completeCode content none c.toNat = some (.string (c :: content)) := by
      have hnoHigh : isHighSurrogate c.toNat = false := by
        simp [isHighSurrogate]
        omega
      have hnoLow : isLowSurrogate c.toNat = false := by
        simp [isLowSurrogate]
        omega
      simp [completeCode, hnoHigh, hnoLow, Char.ofNat_toNat]
    simp [run?, step, hzero, hhigh, hlow, hcode, hcomplete]
  · rename_i hcontrol
    have hstep : step (.string content) c = some ([], .string (c :: content)) := by
      rw [step, if_neg hquote, if_neg hbackslash, if_neg hcontrol]
    simp [run?, hstep]

/-- **A string is read back** up to the quote that closes it. -/
theorem run?_string (characters : List Char) :
    run? found (.string content) (characters.flatMap Json.escape ++ '"' :: rest) =
      run? (.string (String.ofList (content.reverse ++ characters)) :: found) .between rest := by
  induction characters generalizing content with
  | nil => simp [run?, step]
  | cons c characters ih =>
    rw [List.flatMap_cons, List.append_assoc, run?_escape, ih, List.reverse_cons, List.append_assoc]
    rfl

/-- Whether characters may stand after a word. -/
def Parted (chars : List Char) : Prop := ∀ c ∈ chars.head?, isLetter c = false

/-- **A word is read back** before what is apart from it. -/
theorem run?_word (letters : List Char) {value : Json} (hword : wordValue? letters.reverse = some value)
    (hrest : Parted rest) : run? found (.word letters) rest = run? (.scalar value :: found) .between rest := by
  cases rest with
  | nil => simp [run?, finish?, hword]
  | cons c rest =>
    have hstep : step (.word letters) c = (start c).map fun begun => (.scalar value :: begun.1, begun.2) := by
      rw [step, hrest c rfl, hword]
      cases start c <;> rfl
    rw [run?, run?, hstep, step]
    cases start c <;> simp

/-- Whether characters are read as tokens, before what is apart from them. -/
def Reads (chars : List Char) (tokens : List Token) : Prop :=
  ∀ found rest, Parted rest → run? found .between (chars ++ rest) = run? (tokens.reverse ++ found) .between rest

namespace Reads

variable {more : List Char} {others : List Token}

theorem nil : Reads [] [] := fun _ _ _ => rfl

/-- A mark is read before anything else. -/
theorem mark {token : Token} (hmark : start c = some ([token], .between)) (h : Reads chars tokens) :
    Reads (c :: chars) (token :: tokens) := by
  intro found rest hrest
  have hstep : run? found .between (c :: chars ++ rest) = run? (token :: found) .between (chars ++ rest) := by
    rw [List.cons_append, run?, step, hmark]
    rfl
  rw [hstep, h _ _ hrest, List.reverse_cons, List.append_assoc]
  rfl

theorem append (h : Reads chars tokens) (hmore : Reads more others) (hparted : Parted more) (hne : more ≠ []) :
    Reads (chars ++ more) (tokens ++ others) := by
  intro found rest hrest
  have hfollows : Parted (more ++ rest) := by
    cases more with
    | nil => exact (hne rfl).elim
    | cons c more => exact hparted
  rw [List.append_assoc, h _ _ hfollows, hmore _ _ hrest, List.reverse_append, List.append_assoc]

theorem quoted (s : String) : Reads (Json.quoted s) [.string s] := by
  intro found rest _
  have hopen : run? found .between (Json.quoted s ++ rest) =
      run? found (.string []) (s.toList.flatMap Json.escape ++ '"' :: rest) := by
    rw [Json.quoted, List.cons_append, List.cons_append, List.append_assoc]
    rfl
  rw [hopen, run?_string, List.reverse_nil, List.nil_append, String.ofList_toList]
  rfl

/-- A member is read: its key, a colon and its value, before what is apart from them. -/
theorem member (k : String) (h : Reads chars tokens) (hmore : Reads more others) (hparted : Parted more)
    (hne : more ≠ []) :
    Reads (Json.quoted k ++ ':' :: (chars ++ more)) (.string k :: .colon :: (tokens ++ others)) :=
  (quoted k).append (.mark rfl (h.append hmore hparted hne)) (by simp [Parted]; decide) (List.cons_ne_nil _ _)

end Reads

end Lexer

namespace Json

open Lexer

theorem parted_itemChars (items : List Json) : Parted (itemChars items) ∧ itemChars items ≠ [] := by
  cases items <;> simp [itemChars, Parted] <;> decide

theorem parted_memberChars (members : Members) : Parted (memberChars members) ∧ memberChars members ≠ [] := by
  cases members <;> simp [memberChars, Parted] <;> decide

mutual

theorem reads_chars : ∀ (v : Json) {room : Nat}, v.Plain room → Reads v.chars v.tokens
  | null, _, _ => fun found rest hrest => run?_word ['l', 'l', 'u', 'n'] rfl hrest
  | bool true, _, _ => fun found rest hrest => run?_word ['e', 'u', 'r', 't'] rfl hrest
  | bool false, _, _ => fun found rest hrest => run?_word ['e', 's', 'l', 'a', 'f'] rfl hrest
  | string s, _, _ => by
    rw [chars, tokens]
    exact .quoted s
  | array [], _, _ => by
    rw [chars, tokens]
    exact .mark rfl (.mark rfl .nil)
  | array (v :: rest), _, h => by
    rw [chars, tokens]
    obtain ⟨hparted, hne⟩ := parted_itemChars rest
    exact .mark rfl ((reads_chars v h.2.1).append (reads_itemChars rest h.2.2) hparted hne)
  | object [], _, _ => by
    rw [chars, tokens]
    exact .mark rfl (.mark rfl .nil)
  | object ((k, v) :: rest), _, h => by
    rw [chars, tokens, List.append_assoc, List.cons_append, List.cons_append]
    obtain ⟨hparted, hne⟩ := parted_memberChars rest
    exact .mark rfl (.member k (reads_chars v h.2.2.1) (reads_memberChars rest h.2.2.2) hparted hne)

theorem reads_itemChars : ∀ (items : List Json) {room : Nat}, AllPlain room items →
    Reads (itemChars items) (itemTokens items)
  | [], _, _ => .mark rfl .nil
  | v :: rest, _, h => by
    rw [itemChars, itemTokens]
    obtain ⟨hparted, hne⟩ := parted_itemChars rest
    exact .mark rfl ((reads_chars v h.1).append (reads_itemChars rest h.2) hparted hne)

theorem reads_memberChars : ∀ (members : List (String × Json)) {room : Nat}, MembersPlain room members →
    Reads (memberChars members) (memberTokens members)
  | [], _, _ => .mark rfl .nil
  | (k, v) :: rest, _, h => by
    rw [memberChars, memberTokens, List.append_assoc, List.cons_append, List.cons_append]
    obtain ⟨hparted, hne⟩ := parted_memberChars rest
    exact .mark rfl (.member k (reads_chars v h.1) (reads_memberChars rest h.2) hparted hne)

end

/-- **The tokens of a text** are those of the value that it writes. -/
theorem tokens?_text {v : Json} {room : Nat} (h : v.Plain room) : tokens? v.text = some v.tokens := by
  have hread := reads_chars v h [] [] (by simp [Parted])
  rw [List.append_nil, List.append_nil] at hread
  rw [tokens?, text, String.toList_ofList, hread, run?]
  simp [finish?]

end Json

/-! ## From tokens to values -/

/-- A member of a new key is put last. -/
theorem Members.put_of_not_mem {members : Members} {k : String} (h : k ∉ members.map (·.1)) (v : Json) :
    members.put k v = members ++ [(k, v)] := by
  induction members with
  | nil => rfl
  | cons member rest ih =>
    simp only [List.map_cons, List.mem_cons, not_or] at h
    rw [put, if_neg (Ne.symm h.1), ih h.2, List.cons_append]

theorem Members.put_of_nodup {before after : Members} {k : String} {v : Json}
    (h : ((before ++ (k, v) :: after).map (·.1)).Nodup) : before.put k v = before ++ [(k, v)] := by
  refine put_of_not_mem (fun hk => ?_) v
  rw [List.map_append, List.nodup_append] at h
  exact h.2.2 k hk k List.mem_cons_self rfl

namespace Reader

variable {stack : List OpenContainer} {more : List Token}

/-- An array may be opened where the reader still goes deeper, and so may an object. -/
theorem run?_openArray (h : stack.length < maxDepth) :
    run? (.value stack) (.openArray :: more) = run? (.arrayStart stack) more := by
  rw [run?, step, valueStep, if_pos h]

theorem run?_openObject (h : stack.length < maxDepth) :
    run? (.value stack) (.openObject :: more) = run? (.objectStart stack) more := by
  rw [run?, step, valueStep, if_pos h]

/-- After an opening bracket a value is the first item. -/
theorem run?_arrayStart (v : Json) {room : Nat} (h : v.Plain room) :
    run? (.arrayStart stack) (v.tokens ++ more) = run? (.value (.array [] :: stack)) (v.tokens ++ more) := by
  match v with
  | .null => rfl
  | .bool _ => rfl
  | .number _ => exact h.elim
  | .string _ => rfl
  | .array [] => rfl
  | .array (_ :: _) => rfl
  | .object [] => rfl
  | .object ((_, _) :: _) => rfl

mutual

/-- **A value is read from its tokens**, inside of what is open. -/
theorem run?_tokens : ∀ (v : Json) {room : Nat} {stack : List OpenContainer} {more : List Token}, v.Plain room →
    stack.length + room ≤ maxDepth → run? (.value stack) (v.tokens ++ more) = run? (.complete v stack) more
  | .null, _, _, _, _, _ => rfl
  | .bool _, _, _, _, _, _ => rfl
  | .string _, _, _, _, _, _ => rfl
  | .array [], room, stack, more, h, hroom => by
    have hpos : 0 < room := h.1
    rw [Json.tokens, List.cons_append, run?_openArray (by omega)]
    rfl
  | .array (v :: rest), room, stack, more, h, hroom => by
    obtain ⟨hpos, hv, hrest⟩ := h
    have hinner : stack.length + 1 + (room - 1) ≤ maxDepth := by omega
    have hfirst : run? (.value (.array [] :: stack)) (v.tokens ++ (Json.itemTokens rest ++ more)) =
        run? (.complete v (.array [] :: stack)) (Json.itemTokens rest ++ more) := run?_tokens v hv hinner
    rw [Json.tokens, List.cons_append, run?_openArray (by omega), List.append_assoc, run?_arrayStart v hv, hfirst,
      run?_itemTokens rest hrest hinner]
    rfl
  | .object [], room, stack, more, h, hroom => by
    have hpos : 0 < room := h.1
    rw [Json.tokens, List.cons_append, run?_openObject (by omega)]
    rfl
  | .object ((k, v) :: rest), room, stack, more, h, hroom => by
    obtain ⟨hpos, hkeys, hv, hrest⟩ := h
    have hinner : stack.length + 1 + (room - 1) ≤ maxDepth := by omega
    have hkey : run? (.objectStart stack) (.string k :: .colon :: (v.tokens ++ (Json.memberTokens rest ++ more))) =
        run? (.value (.object [] k :: stack)) (v.tokens ++ (Json.memberTokens rest ++ more)) := rfl
    have hfirst : run? (.value (.object [] k :: stack)) (v.tokens ++ (Json.memberTokens rest ++ more)) =
        run? (.complete v (.object [] k :: stack)) (Json.memberTokens rest ++ more) := run?_tokens v hv hinner
    rw [Json.tokens, List.cons_append, run?_openObject (by omega), List.cons_append, List.cons_append,
      List.append_assoc, hkey, hfirst]
    exact run?_memberTokens rest hrest hinner hkeys

/-- The items after one that has been read. -/
theorem run?_itemTokens : ∀ (items : List Json) {room : Nat} {before : List Json} {v : Json}
    {stack : List OpenContainer} {more : List Token}, Json.AllPlain room items →
    stack.length + 1 + room ≤ maxDepth →
    run? (.complete v (.array before :: stack)) (Json.itemTokens items ++ more) =
      run? (.complete (.array ((v :: before).reverse ++ items)) stack) more
  | [], _, before, v, stack, more, _, _ => by
    rw [List.append_nil]
    rfl
  | w :: rest, room, before, v, stack, more, h, hroom => by
    have hcomma : run? (.complete v (.array before :: stack)) (Json.itemTokens (w :: rest) ++ more) =
        run? (.value (.array (v :: before) :: stack)) (w.tokens ++ (Json.itemTokens rest ++ more)) := by
      rw [Json.itemTokens, List.cons_append, List.append_assoc]
      rfl
    have hnext : run? (.value (.array (v :: before) :: stack)) (w.tokens ++ (Json.itemTokens rest ++ more)) =
        run? (.complete w (.array (v :: before) :: stack)) (Json.itemTokens rest ++ more) := run?_tokens w h.1 hroom
    rw [hcomma, hnext, run?_itemTokens rest h.2 hroom, List.reverse_cons, List.append_assoc]
    rfl

/-- The members after one that has been read. -/
theorem run?_memberTokens : ∀ (members : List (String × Json)) {room : Nat} {before : Members} {k : String} {v : Json}
    {stack : List OpenContainer} {more : List Token}, Json.MembersPlain room members →
    stack.length + 1 + room ≤ maxDepth →
    ((before ++ (k, v) :: members).map (·.1)).Nodup →
    run? (.complete v (.object before k :: stack)) (Json.memberTokens members ++ more) =
      run? (.complete (.object (before ++ (k, v) :: members)) stack) more
  | [], _, before, k, v, stack, more, _, _, hkeys => by
    have hclose : run? (.complete v (.object before k :: stack)) (Json.memberTokens [] ++ more) =
        run? (.complete (.object (before.put k v)) stack) more := rfl
    rw [hclose, Members.put_of_nodup hkeys]
  | (l, w) :: rest, room, before, k, v, stack, more, h, hroom, hkeys => by
    have hcomma : run? (.complete v (.object before k :: stack)) (Json.memberTokens ((l, w) :: rest) ++ more) =
        run? (.value (.object (before.put k v) l :: stack)) (w.tokens ++ (Json.memberTokens rest ++ more)) := by
      rw [Json.memberTokens, List.cons_append, List.cons_append, List.cons_append, List.append_assoc]
      rfl
    have hnext : run? (.value (.object (before.put k v) l :: stack)) (w.tokens ++ (Json.memberTokens rest ++ more)) =
        run? (.complete w (.object (before.put k v) l :: stack)) (Json.memberTokens rest ++ more) :=
      run?_tokens w h.1 hroom
    rw [hcomma, hnext, Members.put_of_nodup hkeys]
    rw [List.append_cons] at hkeys
    rw [run?_memberTokens rest h.2 hroom hkeys, List.append_assoc]
    rfl

end

end Reader

/-- **A value is read from its text**, if it has no numbers inside and nests no deeper than the reader goes. -/
theorem Json.ofText?_text {v : Json} {room : Nat} (h : v.Plain room) (hroom : room ≤ Reader.maxDepth) :
    Json.ofText? v.text = some v := by
  have hread : Reader.run? (.value []) (v.tokens ++ []) = Reader.run? (.complete v []) [] :=
    Reader.run?_tokens v h (by simpa using hroom)
  rw [List.append_nil] at hread
  rw [ofText?, tokens?_text h, Option.bind_some, hread]
  rfl

end StateEngine
