import MatrixProgram.Analysis.Effects
import MatrixProgram.Proofs.Printer.Operands

/-!
# The texts of statements

The statement of a command tells its operation and all that its effect depends on,
`sameOperation_of_statement`.

Most operations are written as a call.  The name of a component can be any text, with dots and
brackets in it, but no argument has a dot, so a call is divided at its last dot and from there at
its first bracket.  Arguments of known kinds are then read off one by one.  The statements
without a dot are told apart by a few characters that do not occur in operands.
-/

namespace MatrixProgram

namespace Text

/-! ## Calls -/

/-- What an argument of a call can be. -/
inductive ArgumentKind where
  | operand
  /-- An operand that the call writes. -/
  | output
  | precomputed
  | indexes
  | pairs
  | ranges
deriving DecidableEq, Repr

namespace ArgumentKind

/-- What is written of an argument. -/
def Data : ArgumentKind → Type
  | .operand => Option PrintedView
  | .output => Option PrintedView
  | .precomputed => Option Nat
  | .indexes => List (Option Nat)
  | .pairs => List (Option PrintedRow)
  | .ranges => List (Nat × Int)

/-- An argument as it is written. -/
def text : (kind : ArgumentKind) → kind.Data → List Char
  | .operand => ofOperand
  | .output => fun v? => '&' :: ofOperand v?
  | .precomputed => ofPrecomputed
  | .indexes => ofIndexes
  | .pairs => ofPairs
  | .ranges => ofRanges

/-- An argument ends before the next one and before the end of the call. -/
theorem text_readable (kind : ArgumentKind) :
    ReadableBefore (fun ch => ch = ',' ∨ ch = ')') kind.text := by
  have hOperand : ReadableBefore (fun ch => ch = ',' ∨ ch = ')') ofOperand :=
    ofOperand_readable.mono (by rintro ch (rfl | rfl) <;> decide)
  cases kind with
  | operand => exact hOperand
  | output => exact hOperand.after ['&']
  | precomputed => exact ofPrecomputed_readable _
  | indexes => exact ofIndexes_readable _
  | pairs => exact ofPairs_readable _
  | ranges => exact ofRanges_readable _

theorem dot_not_mem_text (kind : ArgumentKind) (data : kind.Data) : '.' ∉ kind.text data := by
  cases kind with
  | operand => exact dot_not_mem_ofOperand data
  | output => simpa [text] using dot_not_mem_ofOperand data
  | precomputed => exact dot_not_mem_ofPrecomputed data
  | indexes => exact dot_not_mem_ofIndexes data
  | pairs => exact dot_not_mem_ofPairs data
  | ranges => exact dot_not_mem_ofRanges data

end ArgumentKind

/-- An argument of a call. -/
structure Argument where
  kind : ArgumentKind
  data : kind.Data

theorem Argument.data_eq {kind : ArgumentKind} {data data' : kind.Data}
    (h : Argument.mk kind data = Argument.mk kind data') : data = data' :=
  eq_of_heq (Argument.mk.inj h).2

/-- An argument as it is written. -/
def Argument.text (a : Argument) : List Char :=
  a.kind.text a.data

/-- The arguments after another one, up to the end of the call. -/
def moreArguments (as : List Argument) : List Char :=
  (as.flatMap fun a => [',', ' '] ++ a.text) ++ [')']

/-- The arguments of a call, up to its end. -/
def ofArguments (as : List Argument) : List Char :=
  joined [',', ' '] Argument.text as ++ [')']

theorem before_moreArguments (as : List Argument) :
    Before (fun ch => ch = ',' ∨ ch = ')') (moreArguments as) := by
  cases as with
  | nil => exact before_cons_iff.mpr (.inr rfl)
  | cons a as => exact before_cons_iff.mpr (.inl rfl)

/-- Arguments of the same kinds that are written alike are the same. -/
theorem eq_of_moreArguments {as bs : List Argument}
    (hKinds : as.map Argument.kind = bs.map Argument.kind)
    (hEq : moreArguments as = moreArguments bs) : as = bs := by
  induction as generalizing bs with
  | nil =>
      cases bs with
      | nil => rfl
      | cons => cases hKinds
  | cons a as ih =>
      cases bs with
      | nil => cases hKinds
      | cons b bs =>
          obtain ⟨kind, data⟩ := a
          obtain ⟨kind', data'⟩ := b
          obtain ⟨hKind, hOthers⟩ := List.cons.inj hKinds
          obtain rfl : kind = kind' := hKind
          have hTexts : kind.text data ++ moreArguments as =
              kind.text data' ++ moreArguments bs := by
            simpa [moreArguments, Argument.text] using hEq
          obtain ⟨rfl, hMore⟩ :=
            kind.text_readable (before_moreArguments as) (before_moreArguments bs) hTexts
          rw [ih hOthers hMore]

/-- Arguments of the same kinds that are written alike are the same. -/
theorem eq_of_ofArguments {as bs : List Argument}
    (hKinds : as.map Argument.kind = bs.map Argument.kind)
    (hEq : ofArguments as = ofArguments bs) : as = bs := by
  refine eq_of_moreArguments hKinds ?_
  cases as with
  | nil =>
      cases bs with
      | nil => rfl
      | cons => cases hKinds
  | cons a as =>
      cases bs with
      | nil => cases hKinds
      | cons b bs =>
          simpa [moreArguments, ofArguments, joined] using hEq

theorem dot_not_mem_ofArguments (as : List Argument) : '.' ∉ ofArguments as := by
  have hEach : ∀ a : Argument, '.' ∉ a.text := fun a => a.kind.dot_not_mem_text a.data
  simp [ofArguments, not_mem_joined, hEach]

end Text

/-! ## Operations by their texts -/

/-- The name by which an operation is called. -/
def Opcode.callName? : Opcode → Option String
  | .propagate => some "Propagate"
  | .storeStats => some "StoreStats"
  | .backprop => some "Backprop"
  | .gatherAdd => some "AddRows"
  | .gatherCopy => some "CopyRows"
  | .gatherAddMany => some "AddRowsMulti"
  | .gatherCopyMany => some "CopyRowsMulti"
  | .scatterAdd => some "AddToRowsMulti"
  | .scatterCopy => some "CopyToRowsMulti"
  | .sumRanges => some "AddRowRanges"
  | _ => none

/-- The kinds of the arguments of an operation. -/
def Opcode.argumentKinds : Opcode → List Text.ArgumentKind
  | .propagate => [.precomputed, .operand, .output]
  | .storeStats => [.operand]
  | .backprop => [.precomputed, .operand, .operand, .operand, .output]
  | .gatherAdd | .gatherCopy => [.operand, .indexes]
  | .gatherAddMany | .gatherCopyMany | .scatterAdd | .scatterCopy => [.pairs]
  | .sumRanges => [.operand, .ranges]
  | _ => []

/-- A character by which statements that are no calls can be told apart. -/
def Text.isMark (ch : Char) : Bool :=
  ch ∈ ['=', '+', 'z', 'u', '[', '/', '.']

/-- The marks in a statement that is no call. -/
def Opcode.marks : Opcode → List Char
  | .allocZeroed => ['=', 'z']
  | .allocUndefined => ['=', 'u']
  | .release => ['=', '[']
  | .copy => ['=']
  | .add => ['+', '=']
  | .skip => ['[']
  | .marker => ['[', '/']
  | _ => ['.']

theorem Opcode.eq_of_callName? {o o' : Opcode} {name : String} (h : o.callName? = some name)
    (h' : o'.callName? = some name) : o = o' := by
  have hSame := h.trans h'.symm
  cases o <;> cases h <;> cases o' <;> first | rfl | (cases h') | (simp [callName?] at hSame)

theorem Opcode.eq_of_marks {o o' : Opcode} (h : o.callName? = none) (h' : o'.callName? = none)
    (hSame : o.marks = o'.marks) : o = o' := by
  cases o <;> cases h <;> cases o' <;> cases h' <;> first | rfl | (simp [marks] at hSame)

namespace Program

open Text

variable {p : Program} {net : Network} {c d : Command}

/-! ## The operands of checked commands -/

/-- The operands of a checked command are absent or found. -/
theorem resolves_of_check {slot : Slot} {s : Nat} (hCheck : p.checkCommand net c = .ok ())
    (hOperand : c.operand? slot = some s) : p.Resolves s := by
  cases c with
  | propagate =>
      obtain ⟨_, _, _, hFits⟩ := checkPropagate_eq_ok_iff.mp hCheck
      cases slot <;> cases hOperand
      · exact .inr ⟨_, hFits.inputView⟩
      · exact .inr ⟨_, hFits.outputView⟩
  | storeStats =>
      obtain ⟨_, _, hFits⟩ := checkStoreStats_eq_ok_iff.mp hCheck
      cases slot <;> cases hOperand
      exact .inr ⟨_, hFits.valueView⟩
  | backprop =>
      obtain ⟨_, _, _, _, _, hFits⟩ := backpropFits_of_check hCheck
      have hOptional : ∀ {t v?}, p.Optional t v? → p.Resolves t := by
        rintro t v? (⟨hAbsent, -⟩ | ⟨v, hView, -⟩)
        · exact .inl hAbsent
        · exact .inr ⟨v, hView⟩
      cases slot <;> cases hOperand
      · exact hOptional hFits.inValueView
      · exact hOptional hFits.outValueView
      · exact .inr ⟨_, hFits.outDerivView⟩
      · exact hOptional hFits.inDerivView
  | copy | add =>
      obtain ⟨_, _, hFits⟩ := checkCopy_eq_ok_iff.mp hCheck
      cases slot <;> cases hOperand
      · exact .inr ⟨_, hFits.dstView⟩
      · exact .inr ⟨_, hFits.srcView⟩
  | gatherAdd | gatherCopy =>
      obtain ⟨_, _, _, hFits⟩ := checkGather_eq_ok_iff.mp hCheck
      cases slot <;> cases hOperand
      · exact .inr ⟨_, hFits.dstView⟩
      · exact .inr ⟨_, hFits.srcView⟩
  | sumRanges =>
      obtain ⟨_, _, _, hFits⟩ := checkRowRanges_eq_ok_iff.mp hCheck
      cases slot <;> cases hOperand
      · exact .inr ⟨_, hFits.dstView⟩
      · exact .inr ⟨_, hFits.srcView⟩
  | gatherAddMany | gatherCopyMany | scatterAdd | scatterCopy =>
      obtain ⟨_, _, hFits⟩ := checkRowPairs_eq_ok_iff.mp hCheck
      cases slot <;> cases hOperand
      exact .inr ⟨_, hFits.ownView⟩
  | allocZeroed | allocUndefined | release | skip | marker => cases slot <;> cases hOperand

/-- The rows that a checked table of pairs names are found. -/
theorem PairsFit.exists_rowView? {own table : Nat} {scatters : Bool} {v : SubMatrix}
    {pairs : List (Option (Nat × Nat))} (h : p.PairsFit own table scatters v pairs)
    {pair : Nat × Nat} (hMem : some pair ∈ pairs) : ∃ v, p.rowView? pair = some v := by
  obtain ⟨other, hView, -⟩ := h.pair pair.1 pair.2 hMem
  exact ⟨_, by rw [rowView?, subMatrix?_eq_some_iff.mpr hView]; rfl⟩

/-! ## Statements that are calls -/

/-- What a command is called on. -/
def receiverText (p : Program) (net : Network) : Command → String
  | .propagate k .. | .storeStats k _ | .backprop _ k .. => net.componentText k
  | .gatherAdd dst .. | .gatherCopy dst .. | .gatherAddMany dst _ | .gatherCopyMany dst _
  | .sumRanges dst .. => p.subMatrixText dst
  | .scatterAdd src _ | .scatterCopy src _ => p.subMatrixText src
  | _ => ""

/-- The arguments of a command. -/
def arguments (p : Program) : Command → List Argument
  | .propagate _ table? input output =>
      [⟨.precomputed, table?⟩, ⟨.operand, p.printedOperand input⟩,
        ⟨.output, p.printedOperand output⟩]
  | .storeStats _ value => [⟨.operand, p.printedOperand value⟩]
  | .backprop _ _ table? inValue outValue outDeriv inDeriv =>
      [⟨.precomputed, table?⟩, ⟨.operand, p.printedOperand inValue⟩,
        ⟨.operand, p.printedOperand outValue⟩, ⟨.operand, p.printedOperand outDeriv⟩,
        ⟨.output, p.printedOperand inDeriv⟩]
  | .gatherAdd _ src table | .gatherCopy _ src table =>
      [⟨.operand, p.printedOperand src⟩, ⟨.indexes, (p.indexes[table]?).getD []⟩]
  | .gatherAddMany _ table | .gatherCopyMany _ table | .scatterAdd _ table
  | .scatterCopy _ table => [⟨.pairs, p.printedPairs ((p.rowPairs[table]?).getD [])⟩]
  | .sumRanges _ src table =>
      [⟨.operand, p.printedOperand src⟩,
        ⟨.ranges, ((p.rowRanges[table]?).getD []).map fun r => (r.1, lastOfRange r.2)⟩]
  | _ => []

theorem map_kind_arguments (c : Command) :
    (p.arguments c).map Argument.kind = c.opcode.argumentKinds := by
  cases c <;> rfl

theorem toList_callText {receiver name : String} {texts : List String} {as : List Argument}
    (h : texts.map String.toList = as.map Argument.text) :
    (callText receiver name texts).toList =
      receiver.toList ++ '.' :: (name.toList ++ '(' :: ofArguments as) := by
  simp only [callText, String.toList_append, String.toList_intercalate, h]
  simp [ofArguments, intercalate_map_eq_joined]

/-- The texts of the arguments of a call are those of its data. -/
theorem exists_callText {name : String} (hCheck : p.checkCommand net c = .ok ())
    (hName : c.opcode.callName? = some name) :
    ∃ texts, p.statement net c = callText (p.receiverText net c) name texts ∧
      texts.map String.toList = (p.arguments c).map Argument.text := by
  have hText : ∀ slot {s}, c.operand? slot = some s →
      (p.subMatrixText s).toList = ofOperand (p.printedOperand s) :=
    fun _ _ hOperand => toList_subMatrixText (resolves_of_check hCheck hOperand)
  cases c with
  | propagate =>
      cases hName
      refine ⟨_, rfl, ?_⟩
      simp [arguments, Argument.text, ArgumentKind.text, toList_precomputedText,
        hText .input rfl, hText .output rfl]
  | storeStats =>
      cases hName
      refine ⟨_, rfl, ?_⟩
      simp [arguments, Argument.text, ArgumentKind.text, hText .value rfl]
  | backprop =>
      cases hName
      refine ⟨_, rfl, ?_⟩
      simp [arguments, Argument.text, ArgumentKind.text, toList_precomputedText,
        hText .inValue rfl, hText .outValue rfl, hText .outDeriv rfl, hText .inDeriv rfl]
  | gatherAdd | gatherCopy =>
      cases hName
      obtain ⟨_, _, _, hFits⟩ := checkGather_eq_ok_iff.mp hCheck
      refine ⟨_, rfl, ?_⟩
      simp [arguments, Argument.text, ArgumentKind.text, hText .src rfl,
        toList_indexesText hFits.entries, hFits.entries]
  | sumRanges =>
      cases hName
      obtain ⟨_, _, _, hFits⟩ := checkRowRanges_eq_ok_iff.mp hCheck
      refine ⟨_, rfl, ?_⟩
      simp [arguments, Argument.text, ArgumentKind.text, hText .src rfl,
        toList_rowRangesText hFits.entries, hFits.entries]
  | gatherAddMany | gatherCopyMany | scatterAdd | scatterCopy =>
      cases hName
      obtain ⟨_, _, hFits⟩ := checkRowPairs_eq_ok_iff.mp hCheck
      refine ⟨_, rfl, ?_⟩
      simp [arguments, Argument.text, ArgumentKind.text,
        toList_rowPairsText hFits.entries fun _ => hFits.exists_rowView?, hFits.entries]
  | allocZeroed | allocUndefined | release | copy | add | skip | marker => cases hName

/-- A call is written as a receiver, a dot, a name and the arguments. -/
theorem toList_statement_of_callName? {name : String} (hCheck : p.checkCommand net c = .ok ())
    (hName : c.opcode.callName? = some name) :
    (p.statement net c).toList =
      (p.receiverText net c).toList ++
        '.' :: (name.toList ++ '(' :: ofArguments (p.arguments c)) := by
  obtain ⟨texts, hStatement, hTexts⟩ := exists_callText hCheck hName
  rw [hStatement, toList_callText hTexts]

/-- No name of an operation has a character that divides a call. -/
theorem not_mem_callName {o : Opcode} {name : String} (h : o.callName? = some name) :
    '.' ∉ name.toList ∧ '(' ∉ name.toList := by
  cases o <;> cases h <;> simp

/-- Calls that are written alike have the same receiver, name and arguments. -/
theorem eq_of_statement_of_callName? {name name' : String}
    (hCheck : p.checkCommand net c = .ok ()) (hCheck' : p.checkCommand net d = .ok ())
    (hName : c.opcode.callName? = some name) (hName' : d.opcode.callName? = some name')
    (hEq : p.statement net c = p.statement net d) :
    p.receiverText net c = p.receiverText net d ∧ c.opcode = d.opcode ∧
      p.arguments c = p.arguments d := by
  have hTexts := congrArg String.toList hEq
  rw [toList_statement_of_callName? hCheck hName, toList_statement_of_callName? hCheck' hName']
    at hTexts
  have hTail : ∀ {o : Opcode} {name : String} as, o.callName? = some name →
      '.' ∉ name.toList ++ '(' :: ofArguments as := fun as h => by
    simp [not_mem_callName h, dot_not_mem_ofArguments]
  -- A receiver can have dots, but it ends at the last one.
  obtain ⟨hReceiver, hCall⟩ := eq_of_cons_append (hTail _ hName) (hTail _ hName') hTexts
  obtain ⟨hNames, hArguments⟩ :=
    eq_of_append_cons (not_mem_callName hName).2 (not_mem_callName hName').2 hCall
  have hOpcode := Opcode.eq_of_callName? hName (String.toList_inj.mp hNames ▸ hName')
  refine ⟨String.toList_inj.mp hReceiver, hOpcode, eq_of_ofArguments ?_ hArguments⟩
  rw [map_kind_arguments, map_kind_arguments, hOpcode]

/-! ## Statements that are no calls -/

theorem filter_isMark_digits (n : Nat) : (digits n).filter isMark = [] := by
  refine List.filter_eq_nil_iff.mpr fun ch hMem hMark => ?_
  have hDigit := isDigit_of_mem_digits hMem
  simp only [isMark, List.mem_cons, List.not_mem_nil, or_false, decide_eq_true_eq] at hMark
  rcases hMark with rfl | rfl | rfl | rfl | rfl | rfl | rfl <;> cases hDigit

/-- The parts of a view hold no marks. -/
theorem filter_isMark_ofView (v : PrintedView) : (ofView v).filter isMark = [] := by
  obtain ⟨_, w?⟩ := v
  cases w? <;> simp [ofView, ofWindow, ofRange, filter_isMark_digits, isMark]

/-- A copy is written as the destination, the operation and the source. -/
theorem toList_copy {dst src : Nat} {v v' : SubMatrix} (h : p.CopyFits dst src v v') :
    (p.statement net (.copy dst src)).toList =
        ofView (p.printedView dst v) ++ ' ' :: '=' :: ' ' :: ofView (p.printedView src v') ∧
      (p.statement net (.add dst src)).toList =
        ofView (p.printedView dst v) ++
          ' ' :: '+' :: '=' :: ' ' :: ofView (p.printedView src v') := by
  have hText : ∀ {s w}, p.subMatrix s = .ok w →
      (p.subMatrixText s).toList = ofView (p.printedView s w) := fun hView => by
    rw [toList_subMatrixText (.inr ⟨_, hView⟩), printedOperand_of_subMatrix hView]
    rfl
  constructor <;> simp [statement, hText h.dstView, hText h.srcView]

/-- The marks of a statement that is no call tell its operation, and no dot is among them. -/
theorem filter_isMark_statement (hCheck : p.checkCommand net c = .ok ())
    (hName : c.opcode.callName? = none) :
    (p.statement net c).toList.filter isMark = c.opcode.marks := by
  have hDigits : ∀ n, (Nat.toDigits 10 n).filter isMark = [] := filter_isMark_digits
  cases c with
  | allocZeroed | allocUndefined =>
      simp [statement, allocationText, toString, hDigits, isMark, Command.opcode, Opcode.marks]
  | release => simp [statement, toString, hDigits, isMark, Command.opcode, Opcode.marks]
  | copy =>
      obtain ⟨_, _, hFits⟩ := checkCopy_eq_ok_iff.mp hCheck
      rw [(toList_copy hFits).1]
      simp [filter_isMark_ofView, isMark, Command.opcode, Opcode.marks]
  | add =>
      obtain ⟨_, _, hFits⟩ := checkCopy_eq_ok_iff.mp hCheck
      rw [(toList_copy hFits).2]
      simp [filter_isMark_ofView, isMark, Command.opcode, Opcode.marks]
  | skip => simp [statement, isMark, Command.opcode, Opcode.marks]
  | marker => simp [statement, isMark, Command.opcode, Opcode.marks]
  | propagate | storeStats | backprop | gatherAdd | gatherCopy | gatherAddMany | gatherCopyMany
  | scatterAdd | scatterCopy | sumRanges => cases hName

/-- Commands whose statements are the same have the same operation. -/
theorem opcode_eq_of_statement (hCheck : p.checkCommand net c = .ok ())
    (hCheck' : p.checkCommand net d = .ok ())
    (hEq : p.statement net c = p.statement net d) : c.opcode = d.opcode := by
  -- A call has a dot, and no other statement has one.
  have hApart : ∀ {c d : Command} {name : String}, p.checkCommand net c = .ok () →
      p.checkCommand net d = .ok () → c.opcode.callName? = some name →
      d.opcode.callName? = none → p.statement net c ≠ p.statement net d := by
    intro c d name hCheck hCheck' hName hName' hSame
    have hDot : '.' ∈ (p.statement net d).toList.filter isMark := by
      rw [← hSame, toList_statement_of_callName? hCheck hName]
      simp [isMark]
    rw [filter_isMark_statement hCheck' hName'] at hDot
    cases hOpcode : d.opcode <;> rw [hOpcode] at hName' hDot <;> cases hName' <;>
      simp [Opcode.marks] at hDot
  cases hName : c.opcode.callName? with
  | none =>
      cases hName' : d.opcode.callName? with
      | none =>
          refine Opcode.eq_of_marks hName hName' ?_
          rw [← filter_isMark_statement hCheck hName, ← filter_isMark_statement hCheck' hName', hEq]
      | some name' => exact absurd hEq.symm (hApart hCheck' hCheck hName' hName)
  | some name =>
      cases hName' : d.opcode.callName? with
      | none => exact absurd hEq (hApart hCheck hCheck' hName hName')
      | some name' => exact (eq_of_statement_of_callName? hCheck hCheck' hName hName' hEq).2.1

/-- An allocation and a release begin with the matrix. -/
theorem exists_toList_resize (p : Program) (net : Network) {m : Nat}
    (hResize : c.resized? = some m) :
    ∃ rest, (p.statement net c).toList = 'm' :: (digits m ++ ' ' :: rest) := by
  cases c with
  | allocZeroed =>
      cases hResize
      exact ⟨"= zeros".toList ++ (p.allocationText m).toList, by simp [statement, toString, digits]⟩
  | allocUndefined =>
      cases hResize
      exact ⟨"= undefined".toList ++ (p.allocationText m).toList,
        by simp [statement, toString, digits]⟩
  | release =>
      cases hResize
      exact ⟨"= []".toList, by simp [statement, toString, digits]⟩
  | _ => cases hResize

theorem resized?_eq_of_statement {m m' : Nat} (hResize : c.resized? = some m)
    (hResize' : d.resized? = some m') (hEq : p.statement net c = p.statement net d) : m = m' := by
  obtain ⟨rest, hText⟩ := exists_toList_resize p net hResize
  obtain ⟨rest', hText'⟩ := exists_toList_resize p net hResize'
  have hTexts := hText.symm.trans ((congrArg String.toList hEq).trans hText')
  exact (digits_readable (before_cons_iff.mpr (by decide)) (before_cons_iff.mpr (by decide))
    (List.cons.inj hTexts).2).1

/-! ## The same operation on the same operands -/

/-- Every matrix has fewer rows than 64 bits can count, as the ends of ranges are written with
64 bits. -/
def WordSized (p : Program) : Prop :=
  ∀ m shape, p.matrix m = .ok shape → shape.numRows < UInt64.size

/-- Two commands carry out the same operation: on operands that are the same views or both
absent, and with tables that name the same rows of the same matrices. -/
inductive SameOperation (p : Program) : Command → Command → Prop
  | resize {c : Command} {m : Nat} (hResize : c.resized? = some m) : SameOperation p c c
  | propagate {k input input' output output' : Nat} {precomputed : Option Nat}
      (hInput : p.subMatrix input = p.subMatrix input')
      (hOutput : p.subMatrix output = p.subMatrix output') :
      SameOperation p (.propagate k precomputed input output)
        (.propagate k precomputed input' output')
  | storeStats {k value value' : Nat} (hValue : p.subMatrix value = p.subMatrix value') :
      SameOperation p (.storeStats k value) (.storeStats k value')
  | backprop {node node' k inValue inValue' outValue outValue' outDeriv outDeriv' inDeriv
        inDeriv' : Nat} {precomputed : Option Nat}
      (hInValue : p.subMatrix inValue = p.subMatrix inValue')
      (hOutValue : p.subMatrix outValue = p.subMatrix outValue')
      (hOutDeriv : p.subMatrix outDeriv = p.subMatrix outDeriv')
      (hInDeriv : p.subMatrix inDeriv = p.subMatrix inDeriv') :
      SameOperation p (.backprop node k precomputed inValue outValue outDeriv inDeriv)
        (.backprop node' k precomputed inValue' outValue' outDeriv' inDeriv')
  | copy {dst dst' src src' : Nat} (hDst : p.subMatrix dst = p.subMatrix dst')
      (hSrc : p.subMatrix src = p.subMatrix src') :
      SameOperation p (.copy dst src) (.copy dst' src')
  | add {dst dst' src src' : Nat} (hDst : p.subMatrix dst = p.subMatrix dst')
      (hSrc : p.subMatrix src = p.subMatrix src') :
      SameOperation p (.add dst src) (.add dst' src')
  | gatherAdd {dst dst' src src' table table' : Nat}
      (hDst : p.subMatrix dst = p.subMatrix dst') (hSrc : p.subMatrix src = p.subMatrix src')
      (hRows : p.indexes[table]? = p.indexes[table']?) :
      SameOperation p (.gatherAdd dst src table) (.gatherAdd dst' src' table')
  | gatherCopy {dst dst' src src' table table' : Nat}
      (hDst : p.subMatrix dst = p.subMatrix dst') (hSrc : p.subMatrix src = p.subMatrix src')
      (hRows : p.indexes[table]? = p.indexes[table']?) :
      SameOperation p (.gatherCopy dst src table) (.gatherCopy dst' src' table')
  | gatherAddMany {dst dst' table table' : Nat} (hDst : p.subMatrix dst = p.subMatrix dst')
      (hRows : p.rowViews? table = p.rowViews? table') :
      SameOperation p (.gatherAddMany dst table) (.gatherAddMany dst' table')
  | gatherCopyMany {dst dst' table table' : Nat} (hDst : p.subMatrix dst = p.subMatrix dst')
      (hRows : p.rowViews? table = p.rowViews? table') :
      SameOperation p (.gatherCopyMany dst table) (.gatherCopyMany dst' table')
  | scatterAdd {src src' table table' : Nat} (hSrc : p.subMatrix src = p.subMatrix src')
      (hRows : p.rowViews? table = p.rowViews? table') :
      SameOperation p (.scatterAdd src table) (.scatterAdd src' table')
  | scatterCopy {src src' table table' : Nat} (hSrc : p.subMatrix src = p.subMatrix src')
      (hRows : p.rowViews? table = p.rowViews? table') :
      SameOperation p (.scatterCopy src table) (.scatterCopy src' table')
  | sumRanges {dst dst' src src' table table' : Nat}
      (hDst : p.subMatrix dst = p.subMatrix dst') (hSrc : p.subMatrix src = p.subMatrix src')
      (hRanges : p.rowRanges[table]? = p.rowRanges[table']?) :
      SameOperation p (.sumRanges dst src table) (.sumRanges dst' src' table')
  | skip : SameOperation p .skip .skip
  | marker : SameOperation p .marker .marker

/-- Components of different names are different. -/
theorem component_eq_of_componentText {k k' : Nat} {component component' : Component}
    (hDistinct : (net.components.map (·.1)).Nodup) (hLayer : net.component k = .ok component)
    (hLayer' : net.component k' = .ok component')
    (hEq : net.componentText k = net.componentText k') : k = k' := by
  have hName : ∀ {k component}, net.component k = .ok component →
      (net.components.map (·.1))[k]? = some (net.componentText k) := by
    intro k component hLayer
    unfold Network.component at hLayer
    split at hLayer
    · rename_i entry hEntry
      simp [Network.componentText, Network.componentName, hEntry]
    · cases hLayer
  have hAt := hName hLayer
  have hAt' := hName hLayer'
  rw [← hEq] at hAt'
  exact (List.getElem?_inj (List.getElem?_eq_some_iff.mp hAt).1 hDistinct).mp (hAt.trans hAt'.symm)

section Families

variable {dst dst' src src' table table' : Nat}

/-- Both operands of two copies are the same if they are written alike, with the same characters
between them. -/
theorem CopyFits.same {v v' w w' : SubMatrix} (hWell : p.WellFormed)
    (h : p.CopyFits dst src v w) (h' : p.CopyFits dst' src' v' w') (between : List Char)
    (hEq : ofView (p.printedView dst v) ++ ' ' :: (between ++ ofView (p.printedView src w)) =
      ofView (p.printedView dst' v') ++ ' ' :: (between ++ ofView (p.printedView src' w'))) :
    p.subMatrix dst = p.subMatrix dst' ∧ p.subMatrix src = p.subMatrix src' := by
  have hReadable : ReadableBefore (fun ch => ch.isDigit = false ∧ ch ≠ '(')
      fun views : PrintedView × PrintedView =>
        ofView views.1 ++ ' ' :: (between ++ ofView views.2) :=
    ofView_readable.separated (ofView_readable.after between) ' ' (by decide)
  have hPrinted : (p.printedView dst v, p.printedView src w) =
      (p.printedView dst' v', p.printedView src' w') := hReadable.injective hEq
  obtain ⟨hDst, hSrc⟩ := Prod.mk.inj hPrinted
  rw [h.dstView, h'.dstView, h.srcView, h'.srcView,
    eq_of_printedView hWell h.dstView h'.dstView hDst,
    eq_of_printedView hWell h.srcView h'.srcView hSrc]
  exact ⟨rfl, rfl⟩

/-- Rows are gathered from the same place to the same place if that is written alike. -/
theorem GatherFits.same {v v' w w' : SubMatrix} {rows rows' : List (Option Nat)}
    (hWell : p.WellFormed) (h : p.GatherFits dst src table v w rows)
    (h' : p.GatherFits dst' src' table' v' w' rows')
    (hReceiver : p.subMatrixText dst = p.subMatrixText dst')
    (hArguments : p.arguments (.gatherAdd dst src table) =
      p.arguments (.gatherAdd dst' src' table')) :
    p.subMatrix dst = p.subMatrix dst' ∧ p.subMatrix src = p.subMatrix src' ∧
      p.indexes[table]? = p.indexes[table']? := by
  simp only [arguments, h.entries, h'.entries, Option.getD_some, List.cons.injEq,
    and_true] at hArguments
  obtain ⟨hSrc, hRows⟩ := hArguments
  have hRows : rows = rows' := Argument.data_eq hRows
  refine ⟨subMatrix_eq_of_subMatrixText hWell (.inr ⟨_, h.dstView⟩) (.inr ⟨_, h'.dstView⟩)
    hReceiver, subMatrix_eq_of_printedOperand hWell (.inr ⟨_, h.srcView⟩) (.inr ⟨_, h'.srcView⟩)
    (Argument.data_eq hSrc), ?_⟩
  rw [h.entries, h'.entries, hRows]

/-- A range ends inside a matrix. -/
theorem RangesFit.past_lt {v w : SubMatrix} {ranges : List (Nat × Nat)} (hWell : p.WellFormed)
    (hSize : p.WordSized) (h : p.RangesFit dst src table v w ranges) {r : Nat × Nat}
    (hMem : r ∈ ranges) : r.2 < UInt64.size := by
  obtain ⟨shape, hMatrix, hInside, -⟩ := hWell.fits h.srcView
  have hPast := (h.range r.1 r.2 hMem).2
  have hShort := hSize _ _ hMatrix
  simp only [Region.rowEnd] at hInside
  omega

/-- Ranges of rows are summed from the same place to the same place if that is written alike,
as far as machine words can tell the ranges apart. -/
theorem RangesFit.same {v v' w w' : SubMatrix} {ranges ranges' : List (Nat × Nat)}
    (hWell : p.WellFormed) (hSize : p.WordSized) (h : p.RangesFit dst src table v w ranges)
    (h' : p.RangesFit dst' src' table' v' w' ranges')
    (hReceiver : p.subMatrixText dst = p.subMatrixText dst')
    (hArguments : p.arguments (.sumRanges dst src table) =
      p.arguments (.sumRanges dst' src' table')) :
    p.subMatrix dst = p.subMatrix dst' ∧ p.subMatrix src = p.subMatrix src' ∧
      p.rowRanges[table]? = p.rowRanges[table']? := by
  simp only [arguments, h.entries, h'.entries, Option.getD_some, List.cons.injEq,
    and_true] at hArguments
  obtain ⟨hSrc, hRanges⟩ := hArguments
  have hPrinted : (ranges.map fun r => (r.1, lastOfRange r.2)) =
      ranges'.map fun r => (r.1, lastOfRange r.2) := Argument.data_eq hRanges
  have hRanges : ranges.map id = ranges'.map id := by
    refine map_eq_map_of_map_eq_map (fun r hMem r' hMem' hEq => ?_) hPrinted
    obtain ⟨hFirst, hPast⟩ := Prod.mk.inj hEq
    exact Prod.ext hFirst (eq_of_lastOfRange (h.past_lt hWell hSize hMem)
      (h'.past_lt hWell hSize hMem') hPast)
  refine ⟨subMatrix_eq_of_subMatrixText hWell (.inr ⟨_, h.dstView⟩) (.inr ⟨_, h'.dstView⟩)
    hReceiver, subMatrix_eq_of_printedOperand hWell (.inr ⟨_, h.srcView⟩) (.inr ⟨_, h'.srcView⟩)
    (Argument.data_eq hSrc), ?_⟩
  rw [List.map_id, List.map_id] at hRanges
  rw [h.entries, h'.entries, hRanges]

/-- Pairs of rows are named alike if they are written alike. -/
theorem PairsFit.same {own own' : Nat} {scatters : Bool} {v v' : SubMatrix}
    {pairs pairs' : List (Option (Nat × Nat))} (hWell : p.WellFormed)
    (h : p.PairsFit own table scatters v pairs)
    (h' : p.PairsFit own' table' scatters v' pairs')
    (hReceiver : p.subMatrixText own = p.subMatrixText own')
    (hArguments : p.arguments (.scatterAdd own table) =
      p.arguments (.scatterAdd own' table')) :
    p.subMatrix own = p.subMatrix own' ∧ p.rowViews? table = p.rowViews? table' := by
  simp only [arguments, h.entries, h'.entries, Option.getD_some, List.cons.injEq,
    and_true] at hArguments
  have hPrinted : p.printedPairs pairs = p.printedPairs pairs' := Argument.data_eq hArguments
  refine ⟨subMatrix_eq_of_subMatrixText hWell (.inr ⟨_, h.ownView⟩) (.inr ⟨_, h'.ownView⟩)
    hReceiver, ?_⟩
  rw [rowViews?, rowViews?, h.entries, h'.entries, Option.map_some, Option.map_some,
    map_rowView?_eq_of_printedPairs hWell (fun _ => h.exists_rowView?)
      (fun _ => h'.exists_rowView?) hPrinted]

end Families

/-- Commands whose statements are the same carry out the same operation. -/
theorem sameOperation_of_statement (hWell : p.WellFormed) (hSize : p.WordSized)
    (hDistinct : (net.components.map (·.1)).Nodup) (hCheck : p.checkCommand net c = .ok ())
    (hCheck' : p.checkCommand net d = .ok ())
    (hEq : p.statement net c = p.statement net d) : p.SameOperation c d := by
  -- Only pairs of commands with the same operation are left to compare.
  have hOpcode := opcode_eq_of_statement hCheck hCheck' hEq
  have hSame : ∀ slot {s s'}, c.operand? slot = some s → d.operand? slot = some s' →
      p.printedOperand s = p.printedOperand s' → p.subMatrix s = p.subMatrix s' :=
    fun _ _ _ hOperand hOperand' => subMatrix_eq_of_printedOperand hWell
      (resolves_of_check hCheck hOperand) (resolves_of_check hCheck' hOperand')
  cases c <;> cases d <;> cases hOpcode
  case skip.skip => exact .skip
  case marker.marker => exact .marker
  case allocZeroed.allocZeroed | allocUndefined.allocUndefined | release.release =>
    obtain rfl := resized?_eq_of_statement rfl rfl hEq
    exact .resize rfl
  case copy.copy =>
    obtain ⟨_, _, hFits⟩ := checkCopy_eq_ok_iff.mp hCheck
    obtain ⟨_, _, hFits'⟩ := checkCopy_eq_ok_iff.mp hCheck'
    have hTexts := congrArg String.toList hEq
    rw [(toList_copy hFits).1, (toList_copy hFits').1] at hTexts
    obtain ⟨hDst, hSrc⟩ := hFits.same hWell hFits' ['=', ' '] hTexts
    exact .copy hDst hSrc
  case add.add =>
    obtain ⟨_, _, hFits⟩ := checkCopy_eq_ok_iff.mp hCheck
    obtain ⟨_, _, hFits'⟩ := checkCopy_eq_ok_iff.mp hCheck'
    have hTexts := congrArg String.toList hEq
    rw [(toList_copy hFits).2, (toList_copy hFits').2] at hTexts
    obtain ⟨hDst, hSrc⟩ := hFits.same hWell hFits' ['+', '=', ' '] hTexts
    exact .add hDst hSrc
  -- The other ones are calls.
  all_goals
    obtain ⟨hReceiver, -, hArguments⟩ := eq_of_statement_of_callName? hCheck hCheck' rfl rfl hEq
  case propagate.propagate =>
    simp only [arguments, List.cons.injEq, and_true] at hArguments
    obtain ⟨hTable, hInput, hOutput⟩ := hArguments
    obtain ⟨_, _, _, hFits⟩ := checkPropagate_eq_ok_iff.mp hCheck
    obtain ⟨_, _, _, hFits'⟩ := checkPropagate_eq_ok_iff.mp hCheck'
    obtain rfl := component_eq_of_componentText hDistinct hFits.layer hFits'.layer hReceiver
    cases Argument.data_eq hTable
    exact .propagate (hSame .input rfl rfl (Argument.data_eq hInput))
      (hSame .output rfl rfl (Argument.data_eq hOutput))
  case storeStats.storeStats =>
    simp only [arguments, List.cons.injEq, and_true] at hArguments
    obtain ⟨_, _, hFits⟩ := checkStoreStats_eq_ok_iff.mp hCheck
    obtain ⟨_, _, hFits'⟩ := checkStoreStats_eq_ok_iff.mp hCheck'
    obtain rfl := component_eq_of_componentText hDistinct hFits.layer hFits'.layer hReceiver
    exact .storeStats (hSame .value rfl rfl (Argument.data_eq hArguments))
  case backprop.backprop =>
    simp only [arguments, List.cons.injEq, and_true] at hArguments
    obtain ⟨hTable, hInValue, hOutValue, hOutDeriv, hInDeriv⟩ := hArguments
    obtain ⟨_, _, _, _, _, hFits⟩ := backpropFits_of_check hCheck
    obtain ⟨_, _, _, _, _, hFits'⟩ := backpropFits_of_check hCheck'
    obtain rfl := component_eq_of_componentText hDistinct hFits.layer hFits'.layer hReceiver
    cases Argument.data_eq hTable
    exact .backprop (hSame .inValue rfl rfl (Argument.data_eq hInValue))
      (hSame .outValue rfl rfl (Argument.data_eq hOutValue))
      (hSame .outDeriv rfl rfl (Argument.data_eq hOutDeriv))
      (hSame .inDeriv rfl rfl (Argument.data_eq hInDeriv))
  case gatherAdd.gatherAdd | gatherCopy.gatherCopy =>
    obtain ⟨_, _, _, hFits⟩ := checkGather_eq_ok_iff.mp hCheck
    obtain ⟨_, _, _, hFits'⟩ := checkGather_eq_ok_iff.mp hCheck'
    obtain ⟨hDst, hSrc, hRows⟩ := hFits.same hWell hFits' hReceiver hArguments
    first
      | exact .gatherAdd hDst hSrc hRows
      | exact .gatherCopy hDst hSrc hRows
  case gatherAddMany.gatherAddMany | gatherCopyMany.gatherCopyMany | scatterAdd.scatterAdd
    | scatterCopy.scatterCopy =>
    obtain ⟨_, _, hFits⟩ := checkRowPairs_eq_ok_iff.mp hCheck
    obtain ⟨_, _, hFits'⟩ := checkRowPairs_eq_ok_iff.mp hCheck'
    obtain ⟨hOwn, hRows⟩ := hFits.same hWell hFits' hReceiver hArguments
    first
      | exact .gatherAddMany hOwn hRows
      | exact .gatherCopyMany hOwn hRows
      | exact .scatterAdd hOwn hRows
      | exact .scatterCopy hOwn hRows
  case sumRanges.sumRanges =>
    obtain ⟨_, _, _, hFits⟩ := checkRowRanges_eq_ok_iff.mp hCheck
    obtain ⟨_, _, _, hFits'⟩ := checkRowRanges_eq_ok_iff.mp hCheck'
    obtain ⟨hDst, hSrc, hRanges⟩ := hFits.same hWell hSize hFits' hReceiver hArguments
    exact .sumRanges hDst hSrc hRanges

end Program

end MatrixProgram
