namespace DecompConfig

/-- The tag of a calling convention that the decompiler has no name for. -/
def unknownConvention : String := "unknown"

/-- The decompiler's tag of a calling convention, by the name that the analysis tool gives it. -/
def conventionTag : String → String
  | "arm32" => "arm"
  | "arm64" => "arm64"
  | "n32" => "mips"
  | "powerpc-32" => "powerpc"
  | "powerpc-64" => "powerpc64"
  | "amd64" => "unix_x64"
  | "ms" => "ms_x64"
  | "borland" => "pascal_fastcall"
  | "cdecl" => "cdecl"
  | "cdecl-thiscall-ms" => "thiscall"
  | "fastcall" => "fastcall"
  | "pascal" => "pascal"
  | "stdcall" => "stdcall"
  | "watcom" => "watcom"
  | _ => unknownConvention

end DecompConfig
