import Mathlib.Data.List.Basic
import Mathlib.Data.List.Chain
import Mathlib.Tactic.Common

/-!
# DNS-1123 subdomains

A subdomain is a list of labels joined by dots. The labels are what the format
is defined by; cutting and joining is reasoned about on the characters: what
stands at both ends, and beside each dot.
-/

namespace Kopiur.Lib

section Ascii

variable (c : Char)

theorem isUpper_eq : c.isUpper = decide (c.val ≥ 'A'.val ∧ c.val ≤ 'Z'.val) := rfl

theorem isLower_eq : c.isLower = (c.val ≥ 'a'.val && c.val ≤ 'z'.val) := rfl

theorem isAlpha_eq : c.isAlpha = (c.isUpper || c.isLower) := rfl

end Ascii

def isLabelEnd (c : Char) : Bool := c.isLower || c.isDigit

def isLabelChar (c : Char) : Bool := isLabelEnd c || c == '-'

structure DnsLabel (l : List Char) : Prop where
  head : ∃ c ∈ l.head?, isLabelEnd c = true
  last : ∃ c ∈ l.getLast?, isLabelEnd c = true
  chars : ∀ c ∈ l, isLabelChar c = true

def DnsLabels (s : String) : Prop := ∀ l ∈ s.toList.splitOn '.', DnsLabel l

def DnsSubdomain (s : String) : Prop := s.utf8ByteSize ≤ 253 ∧ DnsLabels s

def Seam (a b : Char) : Prop :=
  (a = '.' → isLabelEnd b = true) ∧ (b = '.' → isLabelEnd a = true)

instance (a b : Char) : Decidable (Seam a b) := inferInstanceAs (Decidable (_ ∧ _))

/-- What a subdomain may begin with. -/
structure Begun (l : List Char) : Prop where
  head : ∃ c ∈ l.head?, isLabelEnd c = true
  chars : ∀ c ∈ l, isLabelChar c = true ∨ c = '.'
  seams : l.IsChain Seam

structure Dotted (l : List Char) : Prop extends Begun l where
  last : ∃ c ∈ l.getLast?, isLabelEnd c = true

theorem isLabelEnd_ne_dot {c : Char} (h : isLabelEnd c = true) : c ≠ '.' := by
  rintro rfl
  revert h
  decide

theorem isLabelEnd_ne_dash {c : Char} (h : isLabelEnd c = true) : c ≠ '-' := by
  rintro rfl
  revert h
  decide

theorem isLabelChar_ne_dot {c : Char} (h : isLabelChar c = true) : c ≠ '.' := by
  rintro rfl
  revert h
  decide

theorem isLabelChar_of_end {c : Char} (h : isLabelEnd c = true) : isLabelChar c = true := by
  rw [isLabelChar, h, Bool.true_or]

theorem isChain_of_not_dot {l : List Char} (h : ∀ c ∈ l, c ≠ '.') : l.IsChain Seam := by
  induction l with
  | nil => exact .nil
  | cons a rest ih =>
    cases rest with
    | nil => exact .singleton a
    | cons b rest =>
      refine .cons_cons ⟨fun ha => ?_, fun hb => ?_⟩ (ih fun c hc => h c (List.mem_cons_of_mem _ hc))
      · exact absurd ha (h a (by simp))
      · exact absurd hb (h b (by simp))

theorem begun_of_all {l : List Char} (hhead : ∃ c ∈ l.head?, isLabelEnd c = true)
    (hall : l.all isLabelChar = true) : Begun l where
  head := hhead
  chars c hc := .inl (List.all_eq_true.mp hall c hc)
  seams := isChain_of_not_dot fun c hc => isLabelChar_ne_dot (List.all_eq_true.mp hall c hc)

theorem dotted_iff_label {l : List Char} (h : '.' ∉ l) : Dotted l ↔ DnsLabel l := by
  have hdot : ∀ c ∈ l, c ≠ '.' := fun c hc hd => h (hd ▸ hc)
  constructor
  · intro hl
    exact ⟨hl.head, hl.last, fun c hc => (hl.chars c hc).resolve_right (hdot c hc)⟩
  · intro hl
    exact ⟨⟨hl.head, fun c hc => .inl (hl.chars c hc), isChain_of_not_dot hdot⟩, hl.last⟩

theorem dotted_append_dot {a b : List Char} : Dotted (a ++ '.' :: b) ↔ Dotted a ∧ Dotted b := by
  constructor
  · intro h
    have hseams := List.isChain_append.mp h.seams
    have hne : a ≠ [] := by
      rintro rfl
      obtain ⟨c, hc, hend⟩ := h.head
      rw [List.nil_append, List.head?_cons, Option.mem_some_iff] at hc
      exact isLabelEnd_ne_dot hend hc.symm
    have hne' : b ≠ [] := by
      rintro rfl
      obtain ⟨c, hc, hend⟩ := h.last
      rw [List.getLast?_concat, Option.mem_some_iff] at hc
      exact isLabelEnd_ne_dot hend hc.symm
    refine ⟨⟨⟨?_, fun c hc => h.chars c (by simp [hc]), hseams.1⟩, ?_⟩,
      ⟨⟨?_, fun c hc => h.chars c (by simp [hc]), hseams.2.1.tail⟩, ?_⟩⟩
    · obtain ⟨c, hc, hend⟩ := h.head
      exact ⟨c, by rwa [List.head?_append_of_ne_nil _ hne] at hc, hend⟩
    · refine ⟨a.getLast hne, List.getLast?_eq_some_getLast hne ▸ rfl, ?_⟩
      exact (hseams.2.2 _ (List.getLast?_eq_some_getLast hne ▸ rfl) '.' (by simp)).2 rfl
    · obtain ⟨x, rest, rfl⟩ := List.exists_cons_of_ne_nil hne'
      exact ⟨x, rfl, (List.isChain_cons_cons.mp hseams.2.1).1.1 rfl⟩
    · obtain ⟨c, hc, hend⟩ := h.last
      refine ⟨c, ?_, hend⟩
      rwa [List.getLast?_append_of_ne_nil _ (by simp), List.getLast?_cons_of_ne_nil hne'] at hc
  · rintro ⟨ha, hb⟩
    obtain ⟨x, hx, hxend⟩ := ha.head
    obtain ⟨y, hy, hyend⟩ := ha.last
    obtain ⟨z, hz, hzend⟩ := hb.head
    obtain ⟨u, hu, huend⟩ := hb.last
    have hne : a ≠ [] := by rintro rfl; simp at hx
    have hne' : b ≠ [] := by rintro rfl; simp at hz
    refine ⟨⟨⟨x, by rwa [List.head?_append_of_ne_nil _ hne], hxend⟩, ?_, ?_⟩, u, ?_, huend⟩
    · intro c hc
      rcases List.mem_append.mp hc with hc | hc
      · exact ha.chars c hc
      · rcases List.mem_cons.mp hc with rfl | hc
        · exact .inr rfl
        · exact hb.chars c hc
    · refine List.isChain_append.mpr ⟨ha.seams, ?_, ?_⟩
      · refine List.isChain_cons.mpr ⟨fun c hc => ⟨fun _ => ?_, fun hdot => ?_⟩, hb.seams⟩
        · obtain rfl := Option.mem_unique hc hz
          exact hzend
        · obtain rfl := Option.mem_unique hc hz
          exact absurd hdot (isLabelEnd_ne_dot hzend)
      · intro c hc d hd
        obtain rfl := Option.mem_unique hc hy
        exact ⟨fun hdot => absurd hdot (isLabelEnd_ne_dot hyend), fun _ => hyend⟩
    · rwa [List.getLast?_append_of_ne_nil _ (by simp), List.getLast?_cons_of_ne_nil hne']

theorem forall_splitOn_iff (l : List Char) : (∀ w ∈ l.splitOn '.', DnsLabel w) ↔ Dotted l := by
  induction hn : l.length using Nat.strong_induction_on generalizing l with
  | h n ih =>
    by_cases hdot : '.' ∈ l
    · obtain ⟨a, b, rfl⟩ := List.append_of_mem hdot
      have hlen : (a ++ '.' :: b).length = a.length + b.length + 1 := by simp [Nat.add_assoc]
      rw [List.splitOn_append_cons_self, List.forall_mem_append, dotted_append_dot,
        ih a.length (by omega) a rfl, ih b.length (by omega) b rfl]
    · rw [List.splitOn_eq_singleton hdot, List.forall_mem_singleton, dotted_iff_label hdot]

theorem dnsLabels_iff {s : String} : DnsLabels s ↔ Dotted s.toList := forall_splitOn_iff s.toList

theorem Begun.ne_nil {l : List Char} (h : Begun l) : l ≠ [] := by
  rintro rfl
  obtain ⟨c, hc, -⟩ := h.head
  cases hc

theorem Begun.part {l p : List Char} (h : Begun l) (hp : p <+: l) (hne : p ≠ []) : Begun p := by
  obtain ⟨c, hc, hend⟩ := h.head
  obtain ⟨x, rest, rfl⟩ := List.exists_cons_of_ne_nil hne
  obtain ⟨t, rfl⟩ := hp
  refine ⟨⟨x, rfl, ?_⟩, fun d hd => h.chars d (List.mem_append_left _ hd), ?_⟩
  · rw [List.cons_append, List.head?_cons, Option.mem_some_iff] at hc
    rwa [hc]
  · exact (List.isChain_append.mp h.seams).1

/-- What a subdomain may end with, after a dash. -/
structure Closing (l : List Char) : Prop where
  first : l.head? ≠ some '.'
  chars : ∀ c ∈ l, isLabelChar c = true ∨ c = '.'
  seams : l.IsChain Seam
  last : ∃ c ∈ l.getLast?, isLabelEnd c = true

theorem Dotted.closing {l : List Char} (h : Dotted l) : Closing l where
  first := by
    obtain ⟨c, hc, hend⟩ := h.head
    rintro hdot
    rw [hdot, Option.mem_some_iff] at hc
    exact isLabelEnd_ne_dot hend hc.symm
  chars := h.chars
  seams := h.seams
  last := h.last

theorem closing_of_plain {l : List Char} (hchars : ∀ c ∈ l, isLabelChar c = true)
    (hlast : ∃ c ∈ l.getLast?, isLabelEnd c = true) : Closing l where
  first := fun hdot => isLabelChar_ne_dot (hchars _ (List.mem_of_head? hdot)) rfl
  chars c hc := .inl (hchars c hc)
  seams := isChain_of_not_dot fun c hc => isLabelChar_ne_dot (hchars c hc)
  last := hlast

theorem Closing.ne_nil {l : List Char} (h : Closing l) : l ≠ [] := by
  rintro rfl
  obtain ⟨c, hc, -⟩ := h.last
  cases hc

theorem Begun.join {a b : List Char} (ha : Begun a) (hdot : a.getLast? ≠ some '.')
    (hb : Closing b) : Dotted (a ++ '-' :: b) := by
  obtain ⟨x, hx, hxend⟩ := ha.head
  obtain ⟨u, hu, huend⟩ := hb.last
  refine ⟨⟨⟨x, by rwa [List.head?_append_of_ne_nil _ ha.ne_nil], hxend⟩, ?_, ?_⟩, u, ?_, huend⟩
  · intro c hc
    rcases List.mem_append.mp hc with hc | hc
    · exact ha.chars c hc
    · rcases List.mem_cons.mp hc with rfl | hc
      · exact .inl rfl
      · exact hb.chars c hc
  · refine List.isChain_append.mpr ⟨ha.seams, ?_, ?_⟩
    · refine List.isChain_cons.mpr ⟨fun c hc => ⟨nofun, ?_⟩, hb.seams⟩
      rintro rfl
      exact absurd hc hb.first
    · intro c hc d hd
      rw [List.head?_cons, Option.mem_some_iff] at hd
      subst hd
      refine ⟨?_, nofun⟩
      rintro rfl
      exact absurd hc hdot
  · rwa [List.getLast?_append_of_ne_nil _ (by simp), List.getLast?_cons_of_ne_nil hb.ne_nil]

theorem Begun.dotted {l : List Char} (h : Begun l) (hdot : l.getLast? ≠ some '.')
    (hdash : l.getLast? ≠ some '-') : Dotted l := by
  refine ⟨h, l.getLast h.ne_nil, List.getLast?_eq_some_getLast h.ne_nil ▸ rfl, ?_⟩
  rw [List.getLast?_eq_some_getLast h.ne_nil] at hdot hdash
  rcases h.chars _ (List.getLast_mem h.ne_nil) with hc | hc
  · rw [isLabelChar, Bool.or_eq_true, beq_iff_eq] at hc
    exact hc.resolve_right fun heq => hdash (congrArg some heq)
  · exact absurd (congrArg some hc) hdot

theorem utf8Size_of_labelChar {c : Char} (h : isLabelChar c = true ∨ c = '.') : c.utf8Size = 1 := by
  have hval : c.val ≤ 0x7f := by
    simp only [isLabelChar, isLabelEnd, isLower_eq, Char.isDigit, Bool.or_eq_true,
      Bool.and_eq_true, decide_eq_true_eq, beq_iff_eq] at h
    rcases h with ((⟨-, h⟩ | ⟨-, h⟩) | rfl) | rfl
    · exact UInt32.le_trans h (by decide)
    · exact UInt32.le_trans h (by decide)
    · decide
    · decide
  simp [Char.utf8Size, hval]

end Kopiur.Lib
