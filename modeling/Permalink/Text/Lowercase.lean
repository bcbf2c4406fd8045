import Permalink.Text.CaseTable

/-! Lower case over all of Unicode. A capital sigma becomes the final form where it ends a word. -/

namespace Permalink.Text

def CaseRun.lower? (run : CaseRun) (c : Char) : Option Char :=
  let n := c.toNat
  if run.first ≤ n && n ≤ run.last && (n - run.first) % run.stride = 0 then
    some (Char.ofNat (n + run.shift).toNat)
  else none

def lowerChar (c : Char) : List Char :=
  if c.toNat < 0x80 then [c.toLower]
  else if c = 'İ' then ['i', '\u0307']
  else [(lowercaseRuns.findSome? (·.lower? c)).getD c]

def reachesCased (text : List Char) : Bool :=
  match text.dropWhile (inRanges caseIgnorableRanges) with
  | [] => false
  | c :: _ => inRanges casedRanges c

/-- Lower case of `text`, where `before` holds what precedes it, nearest character first. -/
def lowerAfter (before : List Char) : List Char → List Char
  | [] => []
  | c :: text =>
    let lower :=
      if c = 'Σ' then
        if reachesCased before && !reachesCased text then ['ς'] else ['σ']
      else lowerChar c
    lower ++ lowerAfter (c :: before) text

def lowercase (text : List Char) : List Char := lowerAfter [] text

end Permalink.Text
