import CodeAtlas.Json.Reader
import CodeAtlas.Script.Token

/-!
# Literals of Python source

The values of number and string literals. A string literal has letters, a quote of one or three
characters, and a body in which escapes stand for characters unless the letters say that it is raw.
The body of a formatted literal is a list of pieces: texts, and values with an optional conversion
and an optional format, which is a list of pieces again. A value is kept as source text with the
line it starts on.

A table gives the names of Latin and Greek letters, digits, punctuation, currency signs and control
characters, and case does not matter in them. The names of unified ideographs hold the number of the
character and are known in capitals only. The characters of other scripts and other symbols are not
known by name.
-/

namespace CodeAtlas.Text.Names

def hexDigit? (c : Char) : Option Nat :=
  if '0' ≤ c ∧ c ≤ '9' then some (c.toNat - 48)
  else if 'A' ≤ c ∧ c ≤ 'F' then some (c.toNat - 55)
  else none

def hexNumber? (cs : List Char) : Option Nat :=
  cs.foldlM (fun n c ↦ (hexDigit? c).map (n * 16 + ·)) 0

/-- The names in the order of their characters, and behind them the further names of characters that
are known by several or have none of their own. An entry starts with the number of its character and
a colon, unless that is the next one; then comes how many words it shares with the last name, and
then its other words. -/
def nameTable : String :=
  "s2g<@&)HiqFujM9GqTI%;aJUrj@`1t.'#S62aIq)jNUX'Rp5bGJtS#x|FIiSNf5q!DUVk41pvhiai0F0eDD<m3n>;GetjG$`rPry:,US'c[
c/Wcx3(_PpVpw>dj!2K8?pi.U8kx/*u?f2Z*6)ZqST`7W!lpFRJ>Gixsgab7&8SxYZh[_b=n<I[P,~tHhnOn`rSu5u|H?l=),4J8hCmSG_y|ZI
jT<=Ki0OJ>h;Wz&ssj<eu`ILUtgrZO1t<A!U);[oxB#t8^L]D^,?[w&o!28y@_ml(e=~?Ggva4X~2;54u66(Cu^V6NWH)^qk_1K]N#k2V~6^,2
b+K/J>HY^TfnZi|RbLJuQR@#PpG_hS*5e:6t3p|'q9YN@N1`X~f1*zyi_!u3b7u<z@nxp,bI_UR8D=O<NVhjPa=po^3+cOxGlVjH;&:FW%S4~t
/Q%8Csb*eDU@*Q'@j9$s]Wq6+ZDCla~H<YH,l(rBR)sUgA>)[7YDn)Gimp3bi6udzKO_xUvG+U1samH6j]vS8i2*a[T]vRr8gstTyX)b=sa,*A
=sI8/#m2%8Dj,wVFxnTpo$g@SayHd~$HuL.~tfs#65xJmUi*s.rSatrx0s'D>[nvC[aXfj&zARW%,I;a?NA?L;[1i$;zsv|UE`87zBHO*7YR%I
*9raxf~D]^.m:%v3N62~>ZwPEg|r#DOGIGzPE4,O6U,.B?h[^Kt:WCHYZ+9<Nt5omIGsXLr|Bs[CN#f,A8*|yNm<Y<DHD[sG$'Tp+Yr'!V[5+a
msQE*@gNsO'~jgz%?Ww^WL&pf``4NC.0avSp|yGg.uu+,+<dRB[B*dT_#T>8Vy>[83ju`b0TzjNZG(baY7<Ut7ra16b1:&t;2+?q&;k,up#5gT
wQ'/I1!2/1=6P.cltI[<UkZag(Ki2i+u6M0&5/9;f]LU8D_J(4CM=$G'/*w*~)K|A=kgOH>$h%f+|~>+Qlp!r7U@Y3DTeLK/xnml,7!8G_+Xpi
cY#PFp;:#YS2Bl~=jSru%x(MVsA28.kc_!.!XTne%eW'/.8^>RZkmAQ,DDq&>vf#[th%?r[)[b%|I+JVxD^iOZxA%2>H2YWT#KWjf&FMv:t773
WNG%5`.%cxYn6O$ebXV2+;7~*g_zzQ7iX1ILv&<oYVR!Z=fx5l?]50h,B/_nA`dK);;CpU*X$s#UV+UENVb'>88~(edpzzi!3SR=e%f;(F6Pn]
?M@zsWw(<VlcM=u!Ok@.T:J4pWvlxmk|GQ$.tfUk70&.@oa+,p~<|8]T?Q)dVEVn=qcG=%Vt82kfwcm~Pvqa:QlA8<xqB302(c0Be4.f>iQPMw
mdVNj4Xy+#5A_SWV7!/f2?dSMLa/Kv=VLEum%ml.vqvW4c,dq;Y<3GOEWbCzyLto]rM)27oY'ES4r@z`4!fzB8/lYzQq0AQhtz=?O9o)BH?C6/
tuVk]LP*Zy)0LGMFOI1o?Y|V%Y/o3w.mCm1!a&OYV@^ck&c*wNK!no4Y*U^[:bE;0e]*sACeJ%zkjCl,.OTx<M;q!dv7dkJZoTCO6F63k.x'5a
I7LN&5U:j3]+BwXWt$&MXa8N~YmX)7QYxs]x)Tzra1jT]Fv~K#;R|u4&H4rm.q%'NjzhEZ0xtJT1.8>`StM8K2j]DAq&!MIS<5evMhMLBd/ijS
Jv#o#3]='3.I#2]/oL43sr`ml<Q0f|]^,,5h.JnBZ/<9jKy(e%**#.!YM[|nAf>7RkO^rd(?N*WI#3v|S+93<_g900]dhW,r'K/LeKHl>%90G3
&V+:9WjK(LN'a5Hf9:Ct?av|Hs(&mNdkp[e7;V:cAsQuJy^6lgcS='aZLEw|U5C4V$NIJ;%zAeA]TNk@xKsIGi]UtrhL^Bn^'NEhTk=<+YvPp]
9Xv/B5wE52j2QScf|v|#X$2F2m<+1i_GWIH93%8QfMQAq;?;*`4+LrCI=]g|Z;!r#58H~)[U`:()_bQUE1xcrT])(]<Mv]5cE!qbckRu[a/Z[3
B.YLNbtXJwYxzgY2:(EI]W[cPAi'X8Bi$HqQ@8'M`VMVp3wz/Aq~Uyi6)oE.d9Sp_X5?('e;E#e5UaHAUF0N.r/X>QiJTo$feB<zQwatooY%^i
E`Ye!Px)$:(8=Y)?Ams[KIBY^:PqQ!,kr3U/y($Qq^'.h=#p<M(=rtXomi0FRN_Ho&FJh9=_QsxW0j=1/#K3gKbo':3bnM]#bGwo!abFR:Fyg?
71ci.2ux&03IVnoZHP0b,0nk3b^^m;ybQq'ND/~=fxQ96)sJ.%tg*(j'[X>i9ERQG*z:eU6n2*W|!m9L>5leIi0y;X1]3YGONyy3m[aTn0xE@N
jer=b3k5C`m?mNo.@P6djt^'^^TIMOXn`oEQXiKve`Q=qT'CZ:nZzWb/HqChioBJ(F6uGGy,i'He1xOf<_9,n3w19(F%be;:~7Mx?Zh)XhWA!/
F.vtIl?Bu[gLZCjK@MD<F%!Ekh7SIA1?hw_6gq$HT7:9U2.x$;+ZdAfaHsY<Ow=s;Qa+`iydtYLdpv:iW(..|ntAw]HCQa&@d*%=pnaQ=Cq]Of
b&jF:BP$,S2jWo&@q:$#vgs>Qi+o9zhv*rSqLqTyZwRQiZUXi]q*PZ4iRvUEsGMKl(EXCN'1;%?A2.6Y[j*Zb1hhgz_lFi.kJyBChoX3$~p#A?
WJdK7+'lD4U|[&VH,|5UgAZQXg|Ov>]pXO@%(+Gj#,g+OO;vrYt%KJKBK,Um;<bt0S<.)B;xG=)0mRyqwMD^^vZq=S$df?v|y.F$W4Xm^GFN5W
m_sJeZ(Li4_GAZ]/QiJFvIb%'?<?F=Z:V4F@W/OW[1pEM(RurvzLMKW%d;:Sm|03=2,Iu!a7UlIlK/@by4.@z_$2Z`6u5%s$LqRxh*6~20_`#_
ZSDG4:='qZ>k!^IH`MbYP1$!1+,8LIHyt0nE=?|JG5pl<qvqi$tLry&Y"

/-- The table read so far: the last character with the words of its name, and all names. -/
structure Roll where
  code : Nat := 0
  words : List String := []
  names : List (String × Nat) := []

def Roll.add (roll : Roll) (entry : String) : Roll :=
  let (code, tail) :=
    match splitBy ":" entry with
    | [digits, tail] => ((hexNumber? digits.toList).getD 0, tail.toList)
    | _ => (roll.code + 1, entry.toList)
  match tail with
  | [] => roll
  | shared :: rest =>
    let words := roll.words.take (shared.toNat - 48) ++ splitBy " " (String.ofList rest)
    { code, words, names := (String.intercalate " " words, code) :: roll.names }

def listed : List (String × Nat) :=
  ((splitBy ";" (Packed.read 11205 nameTable)).foldl Roll.add {}).names

def listed? (name : String) : Option Nat :=
  (listed.find? fun entry ↦ entry.1 == name).map Prod.snd

def unifiedRanges : List (Nat × Nat) :=
  [(0x3400, 0x4DBF), (0x4E00, 0x9FFF), (0x20000, 0x2A6DF), (0x2A700, 0x2B738), (0x2B740, 0x2B81D),
   (0x2B820, 0x2CEA1), (0x2CEB0, 0x2EBE0), (0x30000, 0x3134A)]

/-- The unified ideograph whose number four or five digits write. -/
def unified? (digits : String) : Option Nat := do
  let code ← hexNumber? digits.toList
  if (digits.length == 4 || digits.length == 5) &&
      unifiedRanges.any fun range ↦ range.1 ≤ code && code ≤ range.2 then some code
  else none

def code? (name : String) : Option Nat :=
  match after? "CJK UNIFIED IDEOGRAPH-" name with
  | some digits => unified? digits
  | none => listed? name.toUpper

end CodeAtlas.Text.Names

namespace CodeAtlas.Script.Literal

def baseValue (base : Nat) (cs : List Char) : Nat :=
  cs.foldl (fun n c ↦ n * base + ((Json.hexValue? c).getD 0)) 0

/-- The value of digits, places and exponent, with low lines removed. -/
def decimalValue (cs : List Char) : Double :=
  let whole := cs.takeWhile Char.isDigit
  let rest := cs.dropWhile Char.isDigit
  let (places, rest) :=
    match rest with
    | '.' :: more => (more.takeWhile Char.isDigit, more.dropWhile Char.isDigit)
    | _ => ([], rest)
  let power : Int :=
    match rest with
    | 'e' :: '-' :: ds => -(baseValue 10 ds : Int)
    | 'e' :: '+' :: ds => baseValue 10 ds
    | 'e' :: ds => baseValue 10 ds
    | _ => 0
  Double.ofDecimal false (baseValue 10 (whole ++ places)) (power - places.length)

def number (text : String) : Option Constant :=
  let cs := text.toList
  match cs with
  | '0' :: 'x' :: ds => some (.int (baseValue 16 ds))
  | '0' :: 'o' :: ds => some (.int (baseValue 8 ds))
  | '0' :: 'b' :: ds => some (.int (baseValue 2 ds))
  | _ =>
    if cs.getLast? == some 'j' then some (.imaginary (decimalValue cs.dropLast))
    else if cs.any fun c ↦ c == '.' || c == 'e' then some (.float (decimalValue cs))
    else if cs.length > maxDigits then none
    else some (.int (baseValue 10 cs))

/-- A string token taken apart. -/
structure Parts where
  raw : Bool
  bytes : Bool
  formatted : Bool
  marked : Bool
  body : List Char
  /-- Lines that end before the body starts; none, since quotes hold no line end. -/
  line : Nat

def parts (t : Token) : Parts :=
  let cs := t.text.toList
  let letters := cs.takeWhile fun c ↦ c != '"' && c != '\''
  let lower := letters.map Char.toLower
  let quoted := cs.drop letters.length
  let size :=
    match quoted with
    | a :: b :: c :: _ => if a = b ∧ b = c ∧ quoted.length ≥ 6 then 3 else 1
    | _ => 1
  { raw := lower.contains 'r'
    bytes := lower.contains 'b'
    formatted := lower.contains 'f'
    marked := letters.head? == some 'u'
    body := (quoted.drop size).take (quoted.length - 2 * size)
    line := t.line }

def octalRun (cs : List Char) : List Char := (cs.take 3).takeWhile Lexer.isOctal

/-- The value of exactly `count` hexadecimal digits, and what follows them. -/
def hexRun (count : Nat) (cs : List Char) : Option (Nat × List Char) :=
  let ds := cs.take count
  if ds.length = count && ds.all Lexer.isHex then some (baseValue 16 ds, cs.drop count) else none

/-- What a backslash and what follows it stand for, in a text. -/
def textEscape (cs : List Char) : Option (List Char × List Char) :=
  let one (code : Nat) (rest : List Char) : Option (List Char × List Char) :=
    if code ≥ 0x110000 then none else some ([Text.unitChar code], rest)
  match cs with
  | [] => some (['\\'], [])
  | '\n' :: rest => some ([], rest)
  | '\\' :: rest => some (['\\'], rest)
  | '\'' :: rest => some (['\''], rest)
  | '"' :: rest => some (['"'], rest)
  | 'a' :: rest => one 7 rest
  | 'b' :: rest => one 8 rest
  | 'f' :: rest => one 12 rest
  | 'n' :: rest => one 10 rest
  | 'r' :: rest => one 13 rest
  | 't' :: rest => one 9 rest
  | 'v' :: rest => one 11 rest
  | 'x' :: rest => (hexRun 2 rest).bind fun (n, r) ↦ one n r
  | 'u' :: rest => (hexRun 4 rest).bind fun (n, r) ↦ one n r
  | 'U' :: rest => (hexRun 8 rest).bind fun (n, r) ↦ one n r
  | 'N' :: rest =>
    match rest with
    | brace :: more =>
      if brace.toNat = 0x7B then
        let word := more.takeWhile fun c ↦ c.toNat != 0x7D
        let after := more.dropWhile fun c ↦ c.toNat != 0x7D
        match Text.Names.code? (String.ofList word), after with
        | some code, _ :: r => one code r
        | _, _ => none
      else none
    | [] => none
  | c :: rest =>
    if Lexer.isOctal c then
      let ds := octalRun cs
      one (baseValue 8 ds) (cs.drop ds.length)
    else some (['\\', c], rest)

def textValue : (steps : Nat) → List Char → (done : List Char) → Option String
  | 0, _, _ => none
  | _ + 1, [], done => some (String.ofList done.reverse)
  | steps + 1, '\\' :: rest, done =>
    match textEscape rest with
    | some (cs, after) => textValue steps after (cs.reverse ++ done)
    | none => none
  | steps + 1, c :: rest, done => textValue steps rest (c :: done)

/-- What a backslash and what follows it stand for, in a sequence of bytes. -/
def byteEscape (cs : List Char) : Option (List UInt8 × List Char) :=
  match cs with
  | [] => none
  | '\n' :: rest => some ([], rest)
  | '\\' :: rest => some ([92], rest)
  | '\'' :: rest => some ([39], rest)
  | '"' :: rest => some ([34], rest)
  | 'a' :: rest => some ([7], rest)
  | 'b' :: rest => some ([8], rest)
  | 'f' :: rest => some ([12], rest)
  | 'n' :: rest => some ([10], rest)
  | 'r' :: rest => some ([13], rest)
  | 't' :: rest => some ([9], rest)
  | 'v' :: rest => some ([11], rest)
  | 'x' :: rest => (hexRun 2 rest).map fun (n, r) ↦ ([n.toUInt8], r)
  | c :: rest =>
    if Lexer.isOctal c then
      let ds := octalRun cs
      some ([(baseValue 8 ds).toUInt8], cs.drop ds.length)
    else if c.toNat ≥ 128 then none
    else some ([92, c.toNat.toUInt8], rest)

def byteValue (raw : Bool) : (steps : Nat) → List Char → (done : List UInt8) → Option (List UInt8)
  | 0, _, _ => none
  | _ + 1, [], done => some done.reverse
  | steps + 1, c :: rest, done =>
    if c.toNat ≥ 128 then none
    else if c = '\\' ∧ ¬ raw then
      match byteEscape rest with
      | some (bs, after) => byteValue raw steps after (bs.reverse ++ done)
      | none => none
    else byteValue raw steps rest (c.toNat.toUInt8 :: done)

def plainText (raw : Bool) (body : List Char) : Option String :=
  if raw then some (String.ofList body) else textValue (body.length + 1) body []

end CodeAtlas.Script.Literal

namespace CodeAtlas.Script

inductive Piece
  | text (s : String)
  | value (source : String) (line : Nat) (echo : Option String) (conversion : Option Char)
      (spec : Option (List Piece))

namespace Format

def isOpenBrace (c : Char) : Bool := c.toNat == 0x7B

def isCloseBrace (c : Char) : Bool := c.toNat == 0x7D

/-- A run of plain characters up to a brace: the characters, whether the run ended in a doubled
brace, which then counts as one character of the run, and the rest. -/
def literalRun (raw : Bool) (level : Nat) :
    (steps : Nat) → List Char → (done : List Char) → Option (List Char × Bool × List Char)
  | 0, _, _ => none
  | _ + 1, [], done => some (done.reverse, false, [])
  | steps + 1, c :: rest, done =>
    let brace (c : Char) (rest done : List Char) : Option (List Char × Bool × List Char) :=
      if level = 0 ∧ rest.head? = some c then some ((c :: done).reverse, true, rest.drop 1)
      else if level = 0 ∧ isCloseBrace c then none
      else some (done.reverse, false, c :: rest)
    if c = '\\' ∧ ¬ raw then
      match rest with
      | [] => some ((c :: done).reverse, false, [])
      | 'N' :: more =>
        match more with
        | d :: after =>
          if isOpenBrace d then
            let word := after.takeWhile fun x ↦ !isCloseBrace x
            let close := (after.drop word.length).take 1
            literalRun raw level steps (after.drop (word.length + 1))
              (close.reverse ++ word.reverse ++ d :: 'N' :: c :: done)
          else literalRun raw level steps after (d :: 'N' :: c :: done)
        | [] => some (('N' :: c :: done).reverse, false, [])
      | d :: more =>
        if isOpenBrace d || isCloseBrace d then brace d more (c :: done)
        else literalRun raw level steps more (d :: c :: done)
    else if isOpenBrace c || isCloseBrace c then brace c rest done
    else literalRun raw level steps rest (c :: done)

/-- The source of a value up to what ends it. `quote` is the quotation mark of a string that is
open, with whether it is a triple one; `stack` holds the open brackets. -/
def valueRun : (steps : Nat) → (quote : Option (Char × Bool)) → (stack : List Char) → List Char →
    (done : List Char) → Option (List Char × List Char)
  | 0, _, _, _, _ => none
  | _ + 1, _, _, [], _ => none
  | steps + 1, quote, stack, c :: rest, done =>
    if c = '\\' then none
    else
      match quote with
      | some (mark, triple) =>
        if c = mark then
          if triple then
            match rest with
            | d :: e :: more =>
              if d = mark ∧ e = mark then valueRun steps none stack more (e :: d :: c :: done)
              else valueRun steps quote stack rest (c :: done)
            | _ => valueRun steps quote stack rest (c :: done)
          else valueRun steps none stack rest (c :: done)
        else valueRun steps quote stack rest (c :: done)
      | none =>
        if c = '"' ∨ c = '\'' then
          match rest with
          | d :: e :: more =>
            if d = c ∧ e = c then valueRun steps (some (c, true)) stack more (e :: d :: c :: done)
            else valueRun steps (some (c, false)) stack rest (c :: done)
          | _ => valueRun steps (some (c, false)) stack rest (c :: done)
        else if c = '(' ∨ c = '[' ∨ isOpenBrace c then
          if stack.length ≥ maxBrackets then none
          else valueRun steps none (c :: stack) rest (c :: done)
        else if c = '#' then none
        else if stack.isEmpty ∧ (c = '!' ∨ c = ':' ∨ isCloseBrace c ∨ c = '=' ∨ c = '<' ∨ c = '>') then
          if (c = '!' ∨ c = '=' ∨ c = '<' ∨ c = '>') ∧ rest.head? = some '=' then
            valueRun steps none stack (rest.drop 1) ('=' :: c :: done)
          else if c = '<' ∨ c = '>' then valueRun steps none stack rest (c :: done)
          else some (done.reverse, c :: rest)
        else if c = ')' ∨ c = ']' ∨ isCloseBrace c then
          match stack with
          | opening :: outer =>
            if Lexer.closes opening c then valueRun steps none outer rest (c :: done) else none
          | [] => none
        else valueRun steps none stack rest (c :: done)

def isAsciiBlank (c : Char) : Bool := c == ' ' || (9 ≤ c.toNat && c.toNat ≤ 13)

def isEmptySource (cs : List Char) : Bool :=
  cs.all fun c ↦ c == ' ' || c == '\t' || c == '\n' || c == '\x0c'

/-- The pieces of a body or, below the top level, of a format up to the brace that ends it. The
line of a place follows from how much of the body is left there. -/
def pieces (raw : Bool) (body : List Char) (line : Nat) :
    (steps level : Nat) → List Char → (done : List Piece) → Option (List Piece × List Char)
  | 0, _, _, _ => none
  | steps + 1, level, cs, done => do
    let (run, doubled, rest) ← literalRun raw level (cs.length + 1) cs []
    let text ← Literal.plainText raw run
    let done := if text = "" then done else .text text :: done
    if doubled then pieces raw body line steps level rest done
    else
      match rest with
      | [] => some (done.reverse, [])
      | c :: after =>
        if isCloseBrace c then some (done.reverse, rest)
        else if level ≥ 2 then none
        else
          let here := line + (body.take (body.length - rest.length)).count '\n'
          let (source, rest) ← valueRun (after.length + 1) none [] after []
          if isEmptySource source then none
          else
            let (echo, rest) :=
              match rest with
              | '=' :: more =>
                let blanks := more.takeWhile isAsciiBlank
                (some (String.ofList (source ++ '=' :: blanks)), more.drop blanks.length)
              | _ => (none, rest)
            let (conversion, rest) ←
              match rest with
              | '!' :: c :: more =>
                if c = 's' ∨ c = 'r' ∨ c = 'a' then some (some c, more) else none
              | ['!'] => none
              | _ => some (none, rest)
            let (spec, rest) ←
              match rest with
              | ':' :: [] => none
              | ':' :: more =>
                (pieces raw body line steps (level + 1) more []).map fun (ps, r) ↦ (some ps, r)
              | _ => some (none, rest)
            match rest with
            | d :: more =>
              if isCloseBrace d then
                let conversion :=
                  if echo.isSome && spec.isNone && conversion.isNone then some 'r' else conversion
                pieces raw body line steps level more
                  (.value (String.ofList source) here echo conversion spec :: done)
              else none
            | [] => none

def ofBody (raw : Bool) (body : List Char) (line : Nat) : Option (List Piece) :=
  match pieces raw body line (2 * body.length + 2) 0 body [] with
  | some (ps, []) => some ps
  | _ => none

end Format

end CodeAtlas.Script
