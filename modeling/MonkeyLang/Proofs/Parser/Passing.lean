import MonkeyLang.Proofs.Parser.Reads
import MonkeyLang.Proofs.Syntax.Opening

/-!
How a parser comes past the tokens of a stream. Each token is taken in silence, taken to be refused,
or left where it is because another one was wanted. A token that was left is marked: it is not left
a second time before it is taken, unless it is the end of input, which is never got past. An illegal
token is not taken in silence. What the reports of a whole run look like follows by induction.
-/
namespace MonkeyLang

namespace Stream.Holds

variable {s : Stream} {ts : List Token}

theorem next_eq (h : s.Holds ts) : s.next = ts.headD s.ending := by
  rcases h.pending_eq with hp | ⟨rfl, hp⟩
  · cases ts <;> simp [Stream.next, hp]
  · simp [Stream.next, hp]

theorem advance_tail (h : s.Holds ts) : s.advance.Holds ts.tail := by
  cases ts with
  | nil => exact h.advance_nil
  | cons t ts => exact h.advance_cons

theorem eq_nil_of_next (h : s.Holds ts) (hnext : s.next.kind = .eof) : ts = [] := by
  cases ts with
  | nil => rfl
  | cons t ts =>
    rw [h.next_cons] at hnext
    exact absurd hnext (h.before_eof t (by simp))

end Stream.Holds

def TokenKind.isLegal : TokenKind → Bool
  | illegal | other _ => false
  | _ => true

theorem TokenKind.ne_illegal_of_isLegal {kind : TokenKind} (h : kind.isLegal) :
    kind ≠ .illegal := by
  rintro rfl
  exact Bool.false_ne_true h

/-- From one stream to another one with some reports, where the marks say whether the next token has
been left already. -/
inductive Passes : Stream → Bool → List Diagnostic → Stream → Bool → Prop
  | stays (s : Stream) (m : Bool) : Passes s m [] s m
  | takes {s t : Stream} {m m' : Bool} {ds : List Diagnostic} (hkind : s.next.kind ≠ .illegal)
      (h : Passes s.advance false ds t m') : Passes s m ds t m'
  | refuses {s t : Stream} {m m' : Bool} {ds : List Diagnostic} (hkind : s.next.kind.opens = false)
      (h : Passes s.advance false ds t m') : Passes s m (⟨.noRule, s.next⟩ :: ds) t m'
  | leaves {s t : Stream} {m m' : Bool} {ds : List Diagnostic} {wanted : TokenKind}
      (hkind : s.next.kind ≠ wanted) (hlegal : wanted.isLegal)
      (hmark : m = true → s.next.kind = .eof)
      (h : Passes s true ds t m') : Passes s m (⟨.unexpected wanted, s.next⟩ :: ds) t m'

namespace Passes

variable {s t u : Stream} {m m' m'' : Bool} {ds ds' : List Diagnostic} {ts : List Token}
  {R : Token → Token → Prop}

theorem trans (h : Passes s m ds t m') (h' : Passes t m' ds' u m'') :
    Passes s m (ds ++ ds') u m'' := by
  induction h with
  | stays => exact h'
  | takes hkind _ ih => exact .takes hkind (ih h')
  | refuses hkind _ ih => exact .refuses hkind (ih h')
  | leaves hkind hlegal hmark _ ih => exact .leaves hkind hlegal hmark (ih h')

/-- The tokens that were taken, each illegal one with a report. -/
theorem exists_taken (h : Passes s m ds t m') (hs : s.Holds ts) :
    ∃ taken us, ts = taken ++ us ∧ t.Holds us ∧ t.ending = s.ending ∧
      ∀ x ∈ taken, x.kind = .illegal → ∃ d ∈ ds, d.token = x := by
  induction h generalizing ts with
  | stays => exact ⟨[], ts, rfl, hs, rfl, List.forall_mem_nil _⟩
  | @takes s _ _ _ _ hkind _ ih =>
    obtain ⟨taken, us, hsplit, hus, hending, hreported⟩ := ih hs.advance_tail
    cases ts with
    | nil => exact ⟨taken, us, hsplit, hus, hending, hreported⟩
    | cons x ts =>
      rw [hs.next_cons] at hkind
      refine ⟨x :: taken, us, congrArg (x :: ·) hsplit, hus, hending, ?_⟩
      exact List.forall_mem_cons.mpr ⟨fun hx => absurd hx hkind, hreported⟩
  | @refuses s _ _ _ ds _ _ ih =>
    obtain ⟨taken, us, hsplit, hus, hending, hreported⟩ := ih hs.advance_tail
    have hlater : ∀ x ∈ taken, x.kind = .illegal →
        ∃ d ∈ (⟨.noRule, s.next⟩ : Diagnostic) :: ds, d.token = x := by
      intro x hx hkind
      obtain ⟨d, hd, htoken⟩ := hreported x hx hkind
      exact ⟨d, List.mem_cons_of_mem _ hd, htoken⟩
    cases ts with
    | nil => exact ⟨taken, us, hsplit, hus, hending, hlater⟩
    | cons x ts =>
      refine ⟨x :: taken, us, congrArg (x :: ·) hsplit, hus, hending, ?_⟩
      exact List.forall_mem_cons.mpr ⟨fun _ => ⟨_, List.mem_cons_self, hs.next_cons⟩, hlater⟩
  | leaves _ _ _ _ ih =>
    obtain ⟨taken, us, hsplit, hus, hending, hreported⟩ := ih hs
    refine ⟨taken, us, hsplit, hus, hending, fun x hx hkind => ?_⟩
    obtain ⟨d, hd, htoken⟩ := hreported x hx hkind
    exact ⟨d, List.mem_cons_of_mem _ hd, htoken⟩

theorem token_mem (h : Passes s m ds t m') (hs : s.Holds ts) :
    ∀ d ∈ ds, d.token ∈ ts ++ [s.ending] := by
  have hnext : ∀ {s : Stream} {ts : List Token}, s.Holds ts → s.next ∈ ts ++ [s.ending] := by
    intro s ts hs
    rw [hs.next_eq]
    cases ts <;> simp
  have htail : ∀ {ts : List Token} {a x : Token}, x ∈ ts.tail ++ [a] → x ∈ ts ++ [a] := by
    intro ts a x hx
    rcases List.mem_append.mp hx with hx | hx
    · exact List.mem_append_left _ (List.mem_of_mem_tail hx)
    · exact List.mem_append_right _ hx
  induction h generalizing ts with
  | stays => exact List.forall_mem_nil _
  | takes _ _ ih => exact fun d hd => htail (ih hs.advance_tail d hd)
  | refuses _ _ ih =>
    exact List.forall_mem_cons.mpr ⟨hnext hs, fun d hd => htail (ih hs.advance_tail d hd)⟩
  | leaves _ _ _ _ ih => exact List.forall_mem_cons.mpr ⟨hnext hs, ih hs⟩

/-- What is reported once the next token has been taken is about tokens behind it, or about the end
of input. -/
theorem behind (h : Passes s.advance m ds t m') (hs : s.Holds ts)
    (hR : (ts ++ [s.ending]).Pairwise R) :
    ∀ d ∈ ds, R s.next d.token ∨ s.next = d.token ∧ s.next.kind = .eof := by
  intro d hd
  have hmem := h.token_mem hs.advance_tail d hd
  cases ts with
  | nil =>
    right
    rw [hs.next_eq]
    exact ⟨(List.mem_singleton.mp hmem).symm, hs.ending_eof⟩
  | cons x ts =>
    left
    rw [hs.next_cons]
    exact (List.pairwise_cons.mp hR).1 d.token hmem

theorem behind_marked (h : Passes s true ds t m') (hs : s.Holds ts)
    (hR : (ts ++ [s.ending]).Pairwise R) :
    ∀ d ∈ ds, R s.next d.token ∨ s.next = d.token ∧ (s.next.kind = .eof ∨ d.fault = .noRule) := by
  cases h with
  | stays => exact List.forall_mem_nil _
  | takes _ h =>
    intro d hd
    exact (h.behind hs hR d hd).imp_right fun hsame => ⟨hsame.1, Or.inl hsame.2⟩
  | refuses _ h =>
    refine List.forall_mem_cons.mpr ⟨Or.inr ⟨rfl, Or.inr rfl⟩, fun d hd => ?_⟩
    exact (h.behind hs hR d hd).imp_right fun hsame => ⟨hsame.1, Or.inl hsame.2⟩
  | leaves _ _ hmark h =>
    have heof := hmark rfl
    obtain rfl := hs.eq_nil_of_next heof
    refine List.forall_mem_cons.mpr
      ⟨Or.inr ⟨rfl, Or.inl heof⟩, fun d hd => Or.inr ⟨?_, Or.inl heof⟩⟩
    have hmem := h.token_mem hs d hd
    rw [hs.next_eq]
    exact (List.mem_singleton.mp hmem).symm

end Passes

/-- The first report is about an earlier token than the second one. Of two reports about one token,
which is not the end of input, the first says that another one was wanted and the second that no
form begins with it. -/
def Diagnostic.Precedes (R : Token → Token → Prop) (a b : Diagnostic) : Prop :=
  R a.token b.token ∨
    a.token = b.token ∧ (a.token.kind = .eof ∨ a.fault ≠ .noRule ∧ b.fault = .noRule)

def Diagnostic.Fits (d : Diagnostic) : Prop :=
  match d.fault with
  | .noRule => d.token.kind.opens = false
  | .unexpected wanted => d.token.kind ≠ wanted ∧ wanted.isLegal
  | .notInteger => False

namespace Passes

variable {s t : Stream} {m m' : Bool} {ds : List Diagnostic} {ts : List Token}
  {R : Token → Token → Prop}

theorem pairwise (h : Passes s m ds t m') (hs : s.Holds ts) (hR : (ts ++ [s.ending]).Pairwise R) :
    ds.Pairwise (Diagnostic.Precedes R) := by
  have htail : ∀ {ts : List Token} {a : Token}, (ts ++ [a]).Pairwise R →
      (ts.tail ++ [a]).Pairwise R := by
    intro ts a hR
    cases ts with
    | nil => exact hR
    | cons x ts => exact (List.pairwise_cons.mp hR).2
  induction h generalizing ts with
  | stays => exact .nil
  | takes _ _ ih => exact ih hs.advance_tail (htail hR)
  | refuses _ h ih =>
    refine .cons (fun d hd => ?_) (ih hs.advance_tail (htail hR))
    exact (h.behind hs hR d hd).imp_right fun hsame => ⟨hsame.1, Or.inl hsame.2⟩
  | leaves _ _ _ h ih =>
    refine .cons (fun d hd => ?_) (ih hs hR)
    refine (h.behind_marked hs hR d hd).imp_right fun hsame => ⟨hsame.1, ?_⟩
    exact hsame.2.imp_right fun hrule => ⟨Fault.noConfusion, hrule⟩

theorem fits (h : Passes s m ds t m') : ∀ d ∈ ds, d.Fits := by
  induction h with
  | stays => exact List.forall_mem_nil _
  | takes _ _ ih => exact ih
  | refuses hkind _ ih => exact List.forall_mem_cons.mpr ⟨hkind, ih⟩
  | leaves hkind hlegal _ _ ih => exact List.forall_mem_cons.mpr ⟨⟨hkind, hlegal⟩, ih⟩

end Passes

end MonkeyLang
