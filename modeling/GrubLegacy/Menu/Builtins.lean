import GrubLegacy.Base.CStrings

/-!
# The table of builtin commands

What `find_command` and the configuration parser read of `builtin_table`, for the
EFI build with graphics and serial terminals: the names and the flags.
-/

namespace GrubLegacy.Menu

open CStrings

/-- Run in the command-line. -/
def builtinCmdline : Nat := 0x1

/-- Run in the menu. -/
def builtinMenu : Nat := 0x2

/-- Only for the command title. -/
def builtinTitle : Nat := 0x4

/-- Don't print command on booting. -/
def builtinNoEcho : Nat := 0x10

/-- Show help in listing. -/
def builtinHelpList : Nat := 0x20

/-- A `struct builtin`. -/
structure Builtin where
  name : List UInt8
  flags : Nat
deriving DecidableEq, Repr

/-- The last entry is the placeholder for the recovery command. -/
def builtinTable : List Builtin :=
  [ { name := ascii "background", flags := builtinCmdline ||| builtinMenu ||| builtinHelpList },
    { name := ascii "blocklist", flags := builtinCmdline ||| builtinHelpList },
    { name := ascii "boot", flags := builtinCmdline ||| builtinHelpList },
    { name := ascii "cat", flags := builtinCmdline ||| builtinHelpList },
    { name := ascii "chainloader", flags := builtinCmdline ||| builtinHelpList },
    { name := ascii "clear", flags := builtinCmdline ||| builtinHelpList },
    { name := ascii "cmp", flags := builtinCmdline },
    { name := ascii "color", flags := builtinCmdline ||| builtinMenu ||| builtinHelpList },
    { name := ascii "configfile", flags := builtinCmdline ||| builtinHelpList },
    { name := ascii "debug", flags := builtinCmdline ||| builtinMenu },
    { name := ascii "default", flags := builtinMenu },
    { name := ascii "device", flags := builtinMenu ||| builtinCmdline ||| builtinHelpList },
    { name := ascii "displaymem", flags := builtinCmdline ||| builtinHelpList },
    { name := ascii "efimap", flags := builtinMenu ||| builtinCmdline ||| builtinHelpList },
    { name := ascii "fallback", flags := builtinMenu },
    { name := ascii "find", flags := builtinCmdline ||| builtinHelpList },
    { name := ascii "findiso", flags := builtinCmdline ||| builtinHelpList },
    { name := ascii "foreground", flags := builtinCmdline ||| builtinMenu ||| builtinHelpList },
    { name := ascii "fstest", flags := builtinCmdline },
    { name := ascii "geometry", flags := builtinCmdline ||| builtinHelpList },
    { name := ascii "halt", flags := builtinCmdline ||| builtinHelpList },
    { name := ascii "help", flags := builtinCmdline ||| builtinHelpList },
    { name := ascii "hiddenmenu", flags := builtinMenu },
    { name := ascii "hide", flags := builtinCmdline ||| builtinMenu ||| builtinHelpList },
    { name := ascii "initrd", flags := builtinCmdline ||| builtinHelpList },
    { name := ascii "kernel", flags := builtinCmdline ||| builtinHelpList },
    { name := ascii "lock", flags := builtinCmdline },
    { name := ascii "makeactive", flags := builtinCmdline ||| builtinHelpList },
    { name := ascii "md5crypt", flags := builtinCmdline ||| builtinHelpList },
    { name := ascii "module", flags := builtinCmdline ||| builtinHelpList },
    { name := ascii "modulenounzip", flags := builtinCmdline ||| builtinHelpList },
    { name := ascii "pager", flags := builtinCmdline ||| builtinMenu ||| builtinHelpList },
    { name := ascii "partnew", flags := builtinCmdline ||| builtinMenu ||| builtinHelpList },
    { name := ascii "parttype", flags := builtinCmdline ||| builtinMenu ||| builtinHelpList },
    { name := ascii "password", flags := builtinMenu ||| builtinCmdline ||| builtinNoEcho },
    { name := ascii "pause", flags := builtinCmdline ||| builtinNoEcho },
    { name := ascii "quit", flags := builtinCmdline ||| builtinHelpList },
    { name := ascii "read", flags := builtinCmdline },
    { name := ascii "reboot", flags := builtinCmdline ||| builtinHelpList },
    { name := ascii "root", flags := builtinCmdline ||| builtinHelpList },
    { name := ascii "rootnoverify", flags := builtinCmdline ||| builtinHelpList },
    { name := ascii "savedefault", flags := builtinCmdline },
    { name := ascii "serial", flags := builtinMenu ||| builtinCmdline ||| builtinHelpList },
    { name := ascii "silent", flags := builtinMenu ||| builtinCmdline ||| builtinHelpList },
    { name := ascii "splashimage", flags := builtinCmdline ||| builtinMenu ||| builtinHelpList },
    { name := ascii "terminal", flags := builtinMenu ||| builtinCmdline ||| builtinHelpList },
    { name := ascii "terminfo", flags := builtinMenu ||| builtinCmdline ||| builtinHelpList },
    { name := ascii "testload", flags := builtinCmdline },
    { name := ascii "timeout", flags := builtinMenu },
    { name := ascii "title", flags := builtinTitle },
    { name := ascii "unhide", flags := builtinCmdline ||| builtinMenu ||| builtinHelpList },
    { name := ascii "verbose", flags := builtinCmdline ||| builtinMenu },
    { name := ascii "version", flags := builtinCmdline ||| builtinHelpList },
    { name := ascii "", flags := 0 }
  ]

/-- A byte that ends the name of a command. -/
def endsName (c : UInt8) : Bool := c = charOf ' ' || c = charOf '\t' || c = charOf '='

/-- `find_command`: the builtin that has the first word of the line as its name. -/
def findCommand (table : List Builtin) (command : List UInt8) : Option Builtin :=
  table.find? fun builtin => command.takeWhile (fun c => !endsName c) = builtin.name

/-- `skip_to`: the line after its first word and the whitespace that follows it,
equal signs counting as whitespace if `afterEqual`. -/
def skipTo (afterEqual : Bool) (cmdline : List UInt8) : List UInt8 :=
  let separates (c : UInt8) : Bool :=
    c = charOf ' ' || c = charOf '\t' || (afterEqual && c = charOf '=')
  (cmdline.dropWhile fun c => !separates c).dropWhile separates

end GrubLegacy.Menu
