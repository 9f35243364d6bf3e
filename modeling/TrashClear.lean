import TrashClear.Library.Weave
import TrashClear.Library.Blocks
import TrashClear.Java.Text
import TrashClear.Library.Run
import TrashClear.Library.Store
import TrashClear.LocalFileParser
import TrashClear.Java.Sql
import TrashClear.Java.Security
import TrashClear.ByteConvertor
import TrashClear.SecurityUtil
import TrashClear.FileCipher
import TrashClear.MD5EncryptUtils
import TrashClear.SaltCache
import TrashClear.PathTokens
import TrashClear.DataBaseHelper
import TrashClear.DataBaseOp
import TrashClear.GeneratorSpec
import TrashClear.Generation
import TrashClear.Completion
import TrashClear.MalformedLines
import TrashClear.Java.SQLiteDatabase
import TrashClear.Android.DataBaseOp
import TrashClear.Android.GeneratorSpec
import TrashClear.Android.Refinement
import TrashClear.Library.Transactions
import TrashClear.Android.Transactions
import TrashClear.PathLaws
import TrashClear.PackageRows
import TrashClear.SqliteDatabase
import TrashClear.Java.Zip
import TrashClear.ZipUtil
import TrashClear.ZipLimits
import TrashClear.ZipReport
import TrashClear.Library.Disk
import TrashClear.Library.Overlay
import TrashClear.Java.Files
import TrashClear.ZipDir
import TrashClear.FileUtil
import TrashClear.CopyDirectory
import TrashClear.CopyTermination
import TrashClear.DeleteTree
import TrashClear.Recode
import TrashClear.CopyToFile
import TrashClear.ConfigFile
import TrashClear.TextFiles
import TrashClear.Library.Watch
import TrashClear.Java.Process
import TrashClear.Java.Gzip
import TrashClear.GzipFile
import TrashClear.Publication
import TrashClear.PublishedPair
import TrashClear.Library.Bytes
import TrashClear.LittleEndian
import TrashClear.ReadBack
import TrashClear.PathQueries
import TrashClear.Android.Runs
import TrashClear.MergedFiles
import TrashClear.CopyRuns
import TrashClear.CopyFile
import TrashClear.CipherFiles
