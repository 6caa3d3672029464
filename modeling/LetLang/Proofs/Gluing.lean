import LetLang.Proofs.Operations
import LetLang.Proofs.Segmentation

/-!
# `LetLang.Proofs.Gluing` — where two texts run together

Put one behind the other, two texts have the tokens of the one and then those of the other, unless a token
goes over the seam. There are three ways for that: a word goes on, a number goes on, or a `=` comes right
behind a `=` or `!` that has been a token by itself. Behind the second byte of `==` or `!=` nothing goes
on, so with a run of `=` it depends on how many there are.

What a lexeme is depends on the byte behind it, and on no other. So the lexemes of the first text are
still there when the second follows, except perhaps for the last one.

## Contents
- `Munch.congr`, `Munch.extend`: a lexeme and what is put behind it.
- `Meets`, `EndsInSign`, `Glued`: the three ways.
- `tokensOf_append`: the tokens of texts that do not run together.
- `Meets.tokensOf_ne`, `EndsInSign.tokensOf_ne`: those of texts that do.
- `tokens_append_iff`: whole texts.
-/

namespace LetLang

open Text

/-! ## What is behind a lexeme -/

section

variable {p : UInt8 → Bool} {before front rest rest' upper lower bytes : List UInt8} {found : Lexeme}

theorem Alone.congr (h : Alone p before rest) (hhead : rest'.head? = rest.head?) :
    Alone p before rest' :=
  ⟨h.front, hhead ▸ h.behind⟩

/-- **Of what is behind a lexeme only the first byte matters.** -/
theorem Munch.congr (h : Munch before found rest) (hhead : rest'.head? = rest.head?) :
    Munch before found rest' := by
  cases h with
  | reserved h halone => exact .reserved h (halone.congr hhead)
  | name h hfree halone => exact .name h hfree (halone.congr hhead)
  | number h halone => exact .number h (halone.congr hhead)
  | equal => exact .equal
  | notEqual => exact .notEqual
  | mark h hsign => exact .mark h (by rwa [hhead])
  | stray hascii hblank hletter hdigit hmark => exact .stray hascii hblank hletter hdigit hmark
  | fragment h => exact .fragment h

/-! ## Texts that run together -/

/-- A byte of the class ends the one and begins the other. -/
def Meets (p : UInt8 → Bool) (upper lower : List UInt8) : Prop :=
  (∃ a ∈ upper.getLast?, p a = true) ∧ ∃ b ∈ lower.head?, p b = true

/-- The bytes end with a `=` or `!` that is a token by itself. -/
def EndsInSign (bytes : List UInt8) : Prop :=
  (bytes.getLast? = some 0x3d ∨ bytes.getLast? = some 0x21) ∧
    ∃ token ∈ (tokensOf bytes).getLast?, token.kind = .assign ∨ token.kind = .not

/-- A token goes over from the one to the other: a word, a number, or an operator of two bytes. -/
def Glued (upper lower : List UInt8) : Prop :=
  Meets isLetter upper lower ∨ Meets isDigit upper lower ∨
    EndsInSign upper ∧ lower.head? = some 0x3d

instance (p : UInt8 → Bool) (upper lower : List UInt8) : Decidable (Meets p upper lower) :=
  decidable_of_iff (upper.getLast?.any p = true ∧ lower.head?.any p = true)
    (and_congr (Option.any_eq_true p _) (Option.any_eq_true p _))

instance (bytes : List UInt8) : Decidable (EndsInSign bytes) :=
  inferInstanceAs (Decidable (_ ∧ _))

instance (upper lower : List UInt8) : Decidable (Glued upper lower) :=
  inferInstanceAs (Decidable (_ ∨ _))

theorem apart_of_not_meets (h : ¬Meets p upper lower) : Apart p upper lower := by
  intro a ha hp b hb
  apply Bool.eq_false_iff.mpr
  intro hq
  exact h ⟨⟨a, ha, hp⟩, b, hb, hq⟩

/-- No byte of the class comes behind bytes of the class. -/
theorem head_of_not_meets (h : ¬Meets p bytes lower) (hne : bytes ≠ [])
    (hbytes : ∀ a ∈ bytes, p a = true) : ∀ b ∈ lower.head?, p b = false :=
  apart_of_not_meets h _ (List.getLast?_eq_some_getLast hne) (hbytes _ (List.getLast_mem hne))

/-- **A lexeme at the end of some bytes is one still when others follow** that do not run together with
    it. -/
theorem Munch.extend (h : Munch before found rest) (hglue : rest = [] → ¬Glued found.bytes lower) :
    Munch before found (rest ++ lower) := by
  cases rest with
  | cons b bs => exact h.congr rfl
  | nil =>
      obtain ⟨hword, hrest⟩ := not_or.mp (hglue rfl)
      obtain ⟨hnumber, hsign⟩ := not_or.mp hrest
      have hne := h.bytes_ne_nil
      rw [List.nil_append]
      cases h with
      | reserved h halone =>
          have hletters := isLetter_utf8 (Kind.isWord_of_mem_reservedWords h).1
          exact .reserved h ⟨halone.front, head_of_not_meets hword hne hletters⟩
      | name h hfree halone =>
          exact .name h hfree ⟨halone.front, head_of_not_meets hword hne (isLetter_utf8 h)⟩
      | number h halone =>
          exact .number h ⟨halone.front, head_of_not_meets hnumber hne (isDigit_utf8 h)⟩
      | equal => exact .equal
      | notEqual => exact .notEqual
      | mark h =>
          refine .mark h fun hc hhead => hsign ⟨?_, hhead⟩
          rcases hc with rfl | rfl
          · exact (by decide +kernel : EndsInSign [0x3d])
          · exact (by decide +kernel : EndsInSign [0x21])
      | stray hascii hblank hletter hdigit hmark =>
          exact .stray hascii hblank hletter hdigit hmark
      | fragment h => exact .fragment h

/-- What runs together with the end of some bytes runs together with all of them. -/
theorem Glued.prepend {tokens : List Token} (h : Glued bytes lower)
    (htokens : tokensOf (front ++ bytes) = tokens ++ tokensOf bytes) :
    Glued (front ++ bytes) lower := by
  have hlast {α : Type} (front : List α) {l : List α} {a : α} (ha : a ∈ l.getLast?) :
      a ∈ (front ++ l).getLast? := by
    rw [List.getLast?_append, Option.mem_def.mp ha]
    rfl
  rcases h with ⟨⟨a, ha, hp⟩, hb⟩ | ⟨⟨a, ha, hp⟩, hb⟩ | ⟨⟨hbyte, token, htoken, hkind⟩, hb⟩
  · exact .inl ⟨⟨a, hlast front ha, hp⟩, hb⟩
  · exact .inr (.inl ⟨⟨a, hlast front ha, hp⟩, hb⟩)
  · refine .inr (.inr ⟨⟨hbyte.imp (hlast front) (hlast front), token, ?_, hkind⟩, hb⟩)
    rw [htokens]
    exact hlast tokens htoken

/-- **Texts that do not run together have the tokens of the one and then those of the other.** -/
theorem tokensOf_append {upper lower : List UInt8} (h : ¬Glued upper lower) :
    tokensOf (upper ++ lower) = tokensOf upper ++ tokensOf lower := by
  cases upper with
  | nil => simp
  | cons b bs =>
      cases hblank : isBlank b with
      | true =>
          have hskip : tokensOf ([b] ++ bs) = [] ++ tokensOf bs := tokensOf_blank bs hblank
          have hbs : ¬Glued bs lower := fun hglue => h (hglue.prepend hskip)
          rw [List.cons_append, tokensOf_blank _ hblank, tokensOf_blank _ hblank,
            tokensOf_append hbs]
      | false =>
          -- The first lexeme is the same with the other text behind it.
          obtain ⟨found, taken, rest, hbytes, rfl, hfound⟩ :=
            exists_munch (parted_nil (b :: bs)) hblank
          have hfirst (more : List UInt8) (hmunch : Munch [] found more) :
              tokensOf (b :: (taken ++ more)) = found.token :: tokensOf more :=
            tokensOf_of_lexeme taken hblank (by rw [hmunch.lexeme_eq hbytes, ← hbytes])
          have hglue : rest = [] → ¬Glued found.bytes lower := by
            rintro rfl
            rwa [hbytes, ← List.append_nil taken]
          have hsplit : tokensOf (b :: taken ++ rest) = [found.token] ++ tokensOf rest :=
            hfirst rest hfound
          have hrest : ¬Glued rest lower := fun hglue => h (hglue.prepend hsplit)
          rw [List.cons_append, List.append_assoc, hfirst _ (hfound.extend hglue),
            tokensOf_append hrest, hfirst rest hfound, List.cons_append]
termination_by upper.length
decreasing_by
  all_goals
    subst_vars
    simp only [List.length_append, List.length_cons]
    omega

/-! ## The token at the seam -/

/-- The tokens are not put side by side if one at the seam has become another. -/
theorem tokensOf_ne_of_seam {tokens more : List Token} {token token' : Token}
    (hupper : tokensOf upper = tokens ++ [token])
    (hboth : tokensOf (upper ++ lower) = tokens ++ token' :: more) (hne : token' ≠ token) :
    tokensOf (upper ++ lower) ≠ tokensOf upper ++ tokensOf lower := by
  rw [hupper, hboth, List.append_assoc]
  intro heq
  exact hne (List.cons.inj (List.append_cancel_left heq)).1

/-- The run of a class at the end of some bytes. -/
theorem exists_run (p : UInt8 → Bool) (bytes : List UInt8) :
    ∃ front run, bytes = front ++ run ∧ (∀ a ∈ run, p a = true) ∧
      ∀ a ∈ front.getLast?, p a = false := by
  refine ⟨(bytes.reverse.dropWhile p).reverse, (bytes.reverse.takeWhile p).reverse, ?_, ?_, ?_⟩
  · rw [← List.reverse_append, List.takeWhile_append_dropWhile, List.reverse_reverse]
  · intro a ha
    exact List.all_eq_true.mp List.all_takeWhile a (List.mem_reverse.mp ha)
  · rw [List.getLast?_reverse]
    exact head?_dropWhile_eq_false p _

/-- The run at the end of the first text begins behind a byte of another class, so what is in front of it
    is read the same way whatever it goes on with. -/
theorem Meets.exists_run
    (hfree : ∀ front rest, Apart p front rest → (∃ b ∈ rest.head?, p b = true) → ¬Glued front rest)
    (h : Meets p upper lower) :
    ∃ front run, upper = front ++ run ∧ run ≠ [] ∧ (∀ a ∈ run, p a = true) ∧
      ∀ more, tokensOf (front ++ (run ++ more)) = tokensOf front ++ tokensOf (run ++ more) := by
  obtain ⟨⟨a, ha, hpa⟩, _⟩ := h
  obtain ⟨front, run, rfl, hrun, hfront⟩ := LetLang.exists_run p upper
  have hne : run ≠ [] := by
    rintro rfl
    rw [List.append_nil] at ha
    rw [hfront a ha] at hpa
    exact nomatch hpa
  refine ⟨front, run, rfl, hne, hrun, fun more => ?_⟩
  obtain ⟨c, cs, rfl⟩ := List.exists_cons_of_ne_nil hne
  refine tokensOf_append (hfree front _ ?_ ⟨c, rfl, hrun c List.mem_cons_self⟩)
  intro d hd hpd
  rw [hfront d hd] at hpd
  exact nomatch hpd

/-- **Where a run goes on, the last token becomes a longer one.** `read` gives the token of a run. -/
theorem Meets.tokensOf_ne {read : List UInt8 → Token}
    (hread : ∀ run rest, run ≠ [] → (∀ a ∈ run, p a = true) → (∀ b ∈ rest.head?, p b = false) →
      tokensOf (run ++ rest) = read run :: tokensOf rest)
    (htext : ∀ run, (read run).text = asciiText run)
    (hfree : ∀ front rest, Apart p front rest → (∃ b ∈ rest.head?, p b = true) → ¬Glued front rest)
    (h : Meets p upper lower) :
    tokensOf (upper ++ lower) ≠ tokensOf upper ++ tokensOf lower := by
  obtain ⟨front, run, rfl, hne, hrun, hseam⟩ := h.exists_run hfree
  obtain ⟨_, b, hb, hpb⟩ := h
  obtain ⟨rest, rfl⟩ := List.head?_eq_some_iff.mp hb
  have hlonger : ∀ c ∈ run ++ b :: rest.takeWhile p, p c = true := by
    intro c hc
    exact (List.mem_append.mp hc).elim (hrun c) (mem_run hpb c)
  have hlower : run ++ b :: rest = (run ++ b :: rest.takeWhile p) ++ rest.dropWhile p := by
    simp [List.takeWhile_append_dropWhile]
  have hupper : tokensOf (front ++ run) = tokensOf front ++ [read run] := by
    have hend := hread run [] hne hrun (by simp)
    have hall := hseam []
    rwa [hend, List.append_nil, tokensOf_nil] at hall
  have hboth : tokensOf (front ++ run ++ b :: rest) =
      tokensOf front ++ read (run ++ b :: rest.takeWhile p) :: tokensOf (rest.dropWhile p) := by
    have hend := hread _ (rest.dropWhile p) (by simp) hlonger (head?_dropWhile_eq_false p rest)
    rw [List.append_assoc, hseam, hlower, hend]
  refine tokensOf_ne_of_seam hupper hboth fun heq => ?_
  have hlength := congrArg (fun token => token.text.toList.length) heq
  simp [htext, toList_asciiText] at hlength

theorem not_glued_of_letter (hapart : Apart isLetter upper lower)
    (hhead : ∃ b ∈ lower.head?, isLetter b = true) : ¬Glued upper lower := by
  obtain ⟨b, hb, hletter⟩ := hhead
  rintro (⟨⟨a, ha, hp⟩, _⟩ | ⟨_, c, hc, hdigit⟩ | ⟨_, hsign⟩)
  · rw [hapart a ha hp b hb] at hletter
    exact nomatch hletter
  · obtain rfl := Option.mem_unique hb hc
    rw [not_isDigit_of_isLetter hletter] at hdigit
    exact nomatch hdigit
  · obtain rfl := Option.mem_unique hb hsign
    exact nomatch hletter

theorem not_glued_of_digit (hapart : Apart isDigit upper lower)
    (hhead : ∃ b ∈ lower.head?, isDigit b = true) : ¬Glued upper lower := by
  obtain ⟨b, hb, hdigit⟩ := hhead
  rintro (⟨_, c, hc, hletter⟩ | ⟨⟨a, ha, hp⟩, _⟩ | ⟨_, hsign⟩)
  · obtain rfl := Option.mem_unique hb hc
    rw [not_isDigit_of_isLetter hletter] at hdigit
    exact nomatch hdigit
  · rw [hapart a ha hp b hb] at hdigit
    exact nomatch hdigit
  · obtain rfl := Option.mem_unique hb hsign
    exact nomatch hdigit

/-- A byte of neither class goes on with nothing, unless it is a `=`. -/
theorem not_glued_of_head (hhead : ∀ b ∈ lower.head?, isLetter b = false ∧ isDigit b = false)
    (hsign : lower.head? = some 0x3d → ¬EndsInSign upper) : ¬Glued upper lower := by
  rintro (⟨_, b, hb, hletter⟩ | ⟨_, b, hb, hdigit⟩ | ⟨hends, hb⟩)
  · rw [(hhead b hb).1] at hletter
    exact nomatch hletter
  · rw [(hhead b hb).2] at hdigit
    exact nomatch hdigit
  · exact hsign hb hends

/-- A sign and the `=` behind it are one token. -/
theorem tokensOf_sign {b : UInt8} (hb : b = 0x3d ∨ b = 0x21) (rest : List UInt8) :
    ∃ token, tokensOf (b :: 0x3d :: rest) = token :: tokensOf rest ∧
      token.kind ≠ .assign ∧ token.kind ≠ .not := by
  rcases hb with rfl | rfl
  · exact ⟨_, tokensOf_equal rest, by decide, by decide⟩
  · exact ⟨_, tokensOf_notEqual rest, by decide, by decide⟩

/-- **A sign that is a token by itself begins behind the tokens in front of it**, whatever comes next. By
    induction: if it went on with a sign in front, that one would be a token by itself, and the two would
    be read together. -/
theorem EndsInSign.exists_front {bytes : List UInt8} (h : EndsInSign bytes) :
    ∃ front b, bytes = front ++ [b] ∧ (b = 0x3d ∨ b = 0x21) ∧
      ∀ rest, tokensOf (front ++ b :: rest) = tokensOf front ++ tokensOf (b :: rest) := by
  obtain ⟨hbyte, token, htoken, hkind⟩ := h
  obtain ⟨front, b, hbytes, hb⟩ : ∃ front b, bytes = front ++ [b] ∧ (b = 0x3d ∨ b = 0x21) := by
    rcases hbyte with hbyte | hbyte
    · obtain ⟨front, hfront⟩ := List.getLast?_eq_some_iff.mp hbyte
      exact ⟨front, _, hfront, .inl rfl⟩
    · obtain ⟨front, hfront⟩ := List.getLast?_eq_some_iff.mp hbyte
      exact ⟨front, _, hfront, .inr rfl⟩
  refine ⟨front, b, hbytes, hb, fun rest => tokensOf_append (not_glued_of_head ?_ ?_)⟩
  · rintro _ ⟨⟩
    rcases hb with rfl | rfl <;> decide
  · intro hsign hfront
    obtain rfl : b = 0x3d := Option.some.inj hsign
    obtain ⟨front', b', rfl, hb', hseam⟩ := hfront.exists_front
    obtain ⟨longer, hlonger, hassign, hnot⟩ := tokensOf_sign hb' []
    have hlast : tokensOf bytes = tokensOf front' ++ [longer] := by
      rw [hbytes, List.append_assoc]
      exact (hseam [0x3d]).trans (by rw [hlonger, tokensOf_nil])
    rw [hlast, List.getLast?_concat] at htoken
    obtain rfl := Option.some.inj htoken
    exact hkind.elim hassign hnot
termination_by bytes.length
decreasing_by simp [*]

/-- **Where a `=` follows a sign, the last token becomes an operator of two bytes.** -/
theorem EndsInSign.tokensOf_ne (h : EndsInSign upper) (hsign : lower.head? = some 0x3d) :
    tokensOf (upper ++ lower) ≠ tokensOf upper ++ tokensOf lower := by
  obtain ⟨rest, rfl⟩ := List.head?_eq_some_iff.mp hsign
  obtain ⟨front, b, rfl, hb, hseam⟩ := h.exists_front
  obtain ⟨longer, hlonger, hassign, hnot⟩ := tokensOf_sign hb rest
  obtain ⟨sign, hone, hkind⟩ : ∃ sign, tokensOf [b] = [sign] ∧
      (sign.kind = .assign ∨ sign.kind = .not) := by
    rcases hb with rfl | rfl
    · exact ⟨⟨.assign, "="⟩, by decide +kernel, .inl rfl⟩
    · exact ⟨⟨.not, "!"⟩, by decide +kernel, .inr rfl⟩
  have hupper : tokensOf (front ++ [b]) = tokensOf front ++ [sign] := by rw [hseam [], hone]
  have hboth : tokensOf (front ++ [b] ++ 0x3d :: rest) =
      tokensOf front ++ longer :: tokensOf rest := by
    rw [List.append_assoc]
    exact (hseam (0x3d :: rest)).trans (by rw [hlonger])
  refine tokensOf_ne_of_seam hupper hboth ?_
  rintro rfl
  exact hkind.elim hassign hnot

/-- **The tokens of two pieces of text are put side by side exactly if the pieces do not run together.** -/
theorem tokensOf_append_iff :
    tokensOf (upper ++ lower) = tokensOf upper ++ tokensOf lower ↔ ¬Glued upper lower := by
  refine ⟨fun heq hglue => ?_, tokensOf_append⟩
  rcases hglue with h | h | ⟨h, hsign⟩
  · exact h.tokensOf_ne (fun _ _ => tokensOf_word) (fun _ => rfl)
      (fun _ _ => not_glued_of_letter) heq
  · exact h.tokensOf_ne (fun _ _ => tokensOf_number) (fun _ => rfl)
      (fun _ _ => not_glued_of_digit) heq
  · exact h.tokensOf_ne hsign heq

end

/-! ## Blanks -/

section

variable {upper lower blanks other : List UInt8}

theorem tokensOf_blanks (hblank : ∀ b ∈ blanks, isBlank b = true) (bytes : List UInt8) :
    tokensOf (blanks ++ bytes) = tokensOf bytes := by
  induction blanks with
  | nil => rfl
  | cons b bs ih =>
      rw [List.cons_append, tokensOf_blank _ (hblank b List.mem_cons_self),
        ih fun a ha => hblank a (List.mem_cons_of_mem b ha)]

/-- **Nothing goes over a blank.** -/
theorem tokensOf_append_blanks (upper lower : List UInt8) (hne : blanks ≠ [])
    (hblank : ∀ b ∈ blanks, isBlank b = true) :
    tokensOf (upper ++ (blanks ++ lower)) = tokensOf upper ++ tokensOf lower := by
  obtain ⟨b, bs, rfl⟩ := List.exists_cons_of_ne_nil hne
  obtain ⟨hletter, hdigit, hsign⟩ := isBlank_spec (hblank b List.mem_cons_self)
  have hapart : ¬Glued upper (b :: bs ++ lower) := by
    refine not_glued_of_head ?_ fun hhead => absurd (Option.some.inj hhead) hsign
    rintro _ ⟨⟩
    exact ⟨hletter, hdigit⟩
  rw [tokensOf_append hapart, tokensOf_blanks hblank]

end

/-- A text of blanks, and at least one of them. -/
def IsBlankText (text : String) : Prop :=
  text ≠ "" ∧ ∀ c ∈ text.toList, c ∈ [' ', '\t', '\n', '\r']

instance (text : String) : Decidable (IsBlankText text) :=
  decidable_of_iff (text ≠ "" ∧ text.toList.all [' ', '\t', '\n', '\r'].contains = true)
    (and_congr_right fun _ => List.all_eq_true.trans (forall₂_congr fun _ _ => List.contains_iff_mem))

theorem IsBlankText.isBlank {text : String} (h : IsBlankText text) :
    ∀ b ∈ utf8 text, isBlank b = true := by
  have hascii : ∀ c, decide (c ∈ [' ', '\t', '\n', '\r']) = true → c.toNat < 0x80 := by
    intro c hc
    have hmem := of_decide_eq_true hc
    simp only [List.mem_cons, List.not_mem_nil, or_false] at hmem
    rcases hmem with rfl | rfl | rfl | rfl <;> decide
  intro b hb
  have hclass := all_utf8 hascii (fun c hc => decide_eq_true (h.2 c hc)) b hb
  exact forall_byte (p := fun b => decide (Char.ofUInt8 b ∈ [' ', '\t', '\n', '\r']) = true →
    LetLang.isBlank b = true) (by decide +kernel) b hclass

/-- **Between texts with blanks between them nothing goes on**, whatever the blanks are. -/
theorem tokens_append_blanks (upper lower : String) {blanks : String} (h : IsBlankText blanks) :
    (Cursor.ofString (upper ++ blanks ++ lower)).tokens =
      (Cursor.ofString upper).tokens ++ (Cursor.ofString lower).tokens := by
  rw [Cursor.tokens_eq, Cursor.tokens_eq, Cursor.tokens_eq]
  show tokensOf (utf8 (upper ++ blanks ++ lower)) = tokensOf (utf8 upper) ++ tokensOf (utf8 lower)
  rw [utf8_append, utf8_append, List.append_assoc]
  exact tokensOf_append_blanks _ _ (utf8_ne_nil h.1) h.isBlank

/-! ## Whole texts -/

/-- **Texts can be read piece by piece, exactly where they do not run together.** One behind the other, two
    texts have the tokens of the one and then those of the other if and only if no word and no number goes
    on from the one to the other, and no `=` follows a `=` or `!` that is a token by itself. Between texts
    with blanks between them nothing goes on, so it makes no difference which blanks these are: the tokens,
    the program and the diagnostics stay as they are. -/
theorem tokens_append_iff :
    (∀ upper lower : String,
      (Cursor.ofString (upper ++ lower)).tokens =
          (Cursor.ofString upper).tokens ++ (Cursor.ofString lower).tokens ↔
        ¬Glued (utf8 upper) (utf8 lower)) ∧
    ∀ upper lower blanks other : String, IsBlankText blanks → IsBlankText other →
      (Cursor.ofString (upper ++ blanks ++ lower)).tokens =
          (Cursor.ofString upper).tokens ++ (Cursor.ofString lower).tokens ∧
        tokenize (upper ++ other ++ lower) = tokenize (upper ++ blanks ++ lower) ∧
        (parse (upper ++ other ++ lower)).1 = (parse (upper ++ blanks ++ lower)).1 ∧
        (parse (upper ++ other ++ lower)).2.diagnostics =
          (parse (upper ++ blanks ++ lower)).2.diagnostics := by
  constructor
  · intro upper lower
    rw [Cursor.tokens_eq, Cursor.tokens_eq, Cursor.tokens_eq]
    show tokensOf (utf8 (upper ++ lower)) = tokensOf (utf8 upper) ++ tokensOf (utf8 lower) ↔ _
    rw [utf8_append]
    exact tokensOf_append_iff
  · intro upper lower blanks other hblanks hother
    have htokens : tokenize (upper ++ other ++ lower) = tokenize (upper ++ blanks ++ lower) := by
      rw [tokenize, tokenize, tokens_append_blanks upper lower hother,
        tokens_append_blanks upper lower hblanks]
    obtain ⟨hprogram, hdiagnostics⟩ := Parser.program_congr .standard htokens.symm
    exact ⟨tokens_append_blanks upper lower hblanks, htokens, hprogram, hdiagnostics⟩

/-- A line break in the place of spaces, behind a sign and in front of another. -/
theorem tokens_append_iff_signs :
    IsBlankText "  " ∧ IsBlankText "\r\n\t" ∧
      (Cursor.ofString ("!a =" ++ "  " ++ "= 1")).tokens =
        (Cursor.ofString "!a =").tokens ++ (Cursor.ofString "= 1").tokens ∧
      tokenize ("!a =" ++ "\r\n\t" ++ "= 1") = tokenize ("!a =" ++ "  " ++ "= 1") ∧
      (parse ("!a =" ++ "\r\n\t" ++ "= 1")).1 = (parse ("!a =" ++ "  " ++ "= 1")).1 ∧
      (parse ("!a =" ++ "\r\n\t" ++ "= 1")).2.diagnostics =
        (parse ("!a =" ++ "  " ++ "= 1")).2.diagnostics := by
  have hspaces : IsBlankText "  " := by decide +kernel
  have hbreak : IsBlankText "\r\n\t" := by decide +kernel
  exact ⟨hspaces, hbreak, tokens_append_iff.2 "!a =" "= 1" "  " "\r\n\t" hspaces hbreak⟩

/-- Of a run of signs the last one is a token by itself if their number is odd. -/
example : Glued (utf8 "a ===") (utf8 "= b") ∧ ¬Glued (utf8 "a ==") (utf8 "= b") := by
  decide +kernel

end LetLang
