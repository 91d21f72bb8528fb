/-
What is wrong with a program file that cannot be read.

Every cause has one constructor and one text.  The first four are about the bytes
themselves; the others are about what the bytes should have said.
-/
import FlowRecovery.Text.Digits

namespace FlowRecovery

/-- What is wrong with a file. -/
inductive Malformation where
  /-- Something is said to be at an offset behind the end. -/
  | badOffset (offset : Nat)
  /-- Something of a size does not fit into the bytes that are left. -/
  | tooBig (size left : Nat)
  /-- No text starts where so many bytes are left. -/
  | notText (left : Nat)
  /-- The file cannot hold so many of the things that it counts. -/
  | tooShort (count : Nat) (things : String)
  /-- A number that should tell kinds of files or headers apart does not. -/
  | badMagic (number : Nat)
  /-- The file is too small to tell what it is. -/
  | tooSmall
  | elfClass (value : Nat)
  | elfEncoding (value : Nat)
  /-- A section does not end inside the file. -/
  | sectionOffset (name offset size : Nat) (overflowed : Bool)
  /-- A section does not end inside the memory. -/
  | sectionAddress (name address size : Nat)
  /-- A table of texts does not end inside the file. -/
  | textTable (size offset available : Nat) (overflowed : Bool)
  | symbolCount (offset count : Nat)
  | dynamicSize (offset size : Nat)
  | gnuHash (buckets first bloom : Nat)
  /-- There is no room for where the header is. -/
  | headerPointer
  /-- There is no room for the signature of the header. -/
  | headerSignature (offset : Nat)
  | badSignature (signature : Nat)
  /-- There is no room for the program of the older system. -/
  | stub
  | directoryCount (count : Nat)
  /-- A section says in base 64 where its name is, but that is no number. -/
  | name64 (digits : String)
  /-- A section says in decimal where its name is, but that is no number. -/
  | nameDecimal (digits : String)
  | importsAddress (address : Nat)
  /-- The name of a library is in none of the sections, which are given in writing. -/
  | libraryAddress (address : Nat) (sections : List String)
  | slotsAddress (address : Nat) (library : String)
  | debugAddress (address : Nat)
  | debugSize (size : Nat)
  /-- The file name in debug information is cut off; its entry is given in writing. -/
  | debugName (entry : String)
  | unwindingSize (size : Nat)
  | unwindingAddress (address : Nat)
  | certificatesEnd
  | certificateSize (size : Nat)
  | certificateRevision
  | certificateType
  /-- A part of a kind of file that is only recognised is not in order. -/
  | unsound (what : String)
  deriving DecidableEq, Repr, Inhabited

namespace Malformation

/-- A number in hexadecimal, after `0x`. -/
def hexadecimal (n : Nat) : String := "0x" ++ String.ofList (Nat.toDigits 16 n)

/-- A truth value in writing. -/
def truth (b : Bool) : String := if b then "true" else "false"

/-- Why the text is no decimal number. -/
def decimalFault (digits : String) : String :=
  if digits.isEmpty then "cannot parse integer from empty string"
  else "invalid digit found in string"

/-- The text of a fault of the contents. -/
def entity (parts : List String) : String := String.join ("Malformed entity: " :: parts)

/-- The text of what is wrong. -/
def message : Malformation → String
  | .badOffset offset => "bad offset " ++ Text.decimal offset
  | .tooBig size left => "type is too big (" ++ Text.decimal size ++ ") for " ++ Text.decimal left
  | .notText left => "bad input invalid utf8 (" ++ Text.decimal left ++ ")"
  | .unwindingSize size =>
    "bad input invalid exception directory table size (" ++ Text.decimal size ++ ")"
  | .tooShort count things => "Buffer is too short for " ++ Text.decimal count ++ " " ++ things
  | .badMagic number => "Invalid magic number: " ++ hexadecimal number
  | .tooSmall => entity ["Object is too small."]
  | .elfClass value => entity ["invalid ELF class ", Text.hex (.ofNat value)]
  | .elfEncoding value => entity ["invalid ELF DATA type ", Text.hex (.ofNat value)]
  | .sectionOffset name offset size overflowed =>
    entity ["Section ", Text.decimal name, " size (", Text.decimal offset, ") + offset (",
      Text.decimal size, ") is out of bounds. Overflowed: ", truth overflowed]
  | .sectionAddress name address size =>
    entity ["Section ", Text.decimal name, " size (", Text.decimal address, ") + addr (",
      Text.decimal size, ") is out of bounds. Overflowed: true"]
  | .textTable size offset available overflowed =>
    entity ["Strtab size (", Text.decimal size, ") + offset (", Text.decimal offset,
      ") is out of bounds for ", Text.decimal available, " #bytes. Overflowed: ",
      truth overflowed]
  | .symbolCount offset count =>
    entity ["Too many ELF symbols (offset ", hexadecimal offset, ", count ",
      Text.decimal count, ")"]
  | .dynamicSize offset size =>
    entity ["Invalid PT_DYNAMIC size (offset ", hexadecimal offset, ", filesize ",
      hexadecimal size, ")"]
  | .gnuHash buckets first bloom =>
    entity ["Invalid DT_GNU_HASH: buckets_num=", Text.decimal buckets, " min_chain=",
      Text.decimal first, " bloom_size=", Text.decimal bloom]
  | .headerPointer => entity ["cannot parse PE header pointer (offset 0x3c)"]
  | .headerSignature offset =>
    entity ["cannot parse PE header signature (offset ", hexadecimal offset, ")"]
  | .badSignature signature =>
    entity ["PE header is malformed (signature ", hexadecimal signature, ")"]
  | .stub => entity ["cannot parse DOS stub (offset 0x40)"]
  | .directoryCount count =>
    entity ["data directory count (", Text.decimal count,
      ") is greater than maximum number of data directories (16)"]
  | .name64 digits =>
    entity ["Invalid indirect section name //", digits, ": base64 decoding failed"]
  | .nameDecimal digits =>
    entity ["Invalid indirect section name /", digits, ": ", decimalFault digits]
  | .importsAddress address =>
    entity ["Cannot create ImportData; cannot map import_directory_table_rva ",
      hexadecimal address, " into offset"]
  | .libraryAddress address sections =>
    entity ["Cannot find name from rva ", hexadecimal address, " in sections: [",
      ", ".intercalate sections, "]"]
  | .slotsAddress address library =>
    entity ["Cannot map import_address_table_rva ", hexadecimal address, " into offset for ",
      library]
  | .debugAddress address =>
    entity ["Cannot map ImageDebugDirectory rva ", hexadecimal address, " into offset"]
  | .debugSize size =>
    entity ["ImageDebugDirectory size of data seems wrong: ", Text.decimal size]
  | .debugName entry => entity ["ImageDebugDirectory seems corrupted: ", entry]
  | .unwindingAddress address =>
    entity ["cannot map exception_rva (", hexadecimal address, ") into offset"]
  | .certificatesEnd =>
    entity ["End of attribute certificates table is after the end of the PE binary"]
  | .certificateSize size =>
    entity ["Unable to extract certificate. Probably cert_size:", Text.decimal size,
      " is malformed"]
  | .certificateRevision => entity ["Invalid certificate attribute revision"]
  | .certificateType => entity ["Invalid attribute certificate type"]
  | .unsound what => entity [what]

end Malformation

end FlowRecovery
